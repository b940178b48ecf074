import Upkeep.Dependency
import Upkeep.Version

/-!
# Dependencies from build assets

A build publishes assets under known names, and the version of such an asset is the version of a
product. An asset may be published several times; the highest version counts.
-/

namespace Upkeep

open Text

/-- A published asset of a build. -/
structure PublishedAsset where
  name : String
  version : String
  deriving DecidableEq, Inhabited

namespace PublishedAsset

/-- The assets that carry the version of a product. -/
def products : List (String × String) :=
  [("Microsoft.NETCore.App.Ref", "runtime"),
   ("Microsoft.AspNetCore.App.Ref", "aspnet"),
   ("Microsoft.Dotnet.Sdk.Internal", "sdk")]

/-- The product whose version an asset carries; the case of ASCII letters does not matter. -/
def product? (a : PublishedAsset) : Option String :=
  (products.find? fun (name, _) => sameIgnoringCase name.toList a.name.toList).map Prod.snd

/-- The versions that the assets give for a product, in their order. -/
def versionsOf (product : String) (assets : List PublishedAsset) : List String :=
  (assets.filter fun a => a.product? = some product).map PublishedAsset.version

end PublishedAsset

/-- The dependencies that the assets of a build provide. -/
def Dependencies.ofAssets (assets : List PublishedAsset) : Dependencies :=
  .ofList (PublishedAsset.products.filterMap fun (_, product) =>
    (Version.highest (PublishedAsset.versionsOf product assets)).map (Dependency.mk product))

end Upkeep
