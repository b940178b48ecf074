import Upkeep.Release

/-!
# A sample release

A release as the default tool publishes it: two assets, and notes with a table of their digests.
-/

namespace Upkeep.Release

/-- The asset of the sample release for an architecture. -/
def sampleAsset (tag arch : String) : Asset :=
  let name := "chisel_" ++ tag ++ "_linux_" ++ arch ++ ".tar.gz"
  ⟨name, "https://github.com/canonical/chisel/releases/download/" ++ tag ++ "/" ++ name⟩

/-- A row of the table of digests. -/
def sampleRow (name : String) (digit : Char) : String :=
  "| " ++ name ++ " | " ++ String.ofList (List.replicate 64 digit) ++ " |\n"

/-- The sample release of a tag. -/
def sample (tag : String) : Release :=
  let amd := sampleAsset tag "amd64"
  let arm := sampleAsset tag "arm64"
  { tag
    body := some ("## Checksums\n\n| File | SHA256 |\n| --- | --- |\n"
      ++ sampleRow amd.name 'a' ++ sampleRow arm.name 'b')
    assets := [amd, arm] }

end Upkeep.Release
