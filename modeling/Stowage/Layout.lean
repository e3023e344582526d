import Stowage.Number.Binary64
import Stowage.Path.Basic
import Stowage.Table

set_option autoImplicit false

namespace Stowage

def nameOrder (a b : String) : Ordering := compareOfLessAndEq a b

structure Layout where
  stagingDir : Path
  sourceDir : Path
  requiredDirs : List Path
  destinations : Table String Path
  fallbackDir : Path
  aliases : Table String Path
  probeExtensions : List String
  sourceExtensions : List String
  executableExtensions : List String
  threshold : Binary64
  deriving Repr, Inhabited

namespace Layout

def paths (rows : List (String × String)) : Table String Path :=
  Table.ofList nameOrder (rows.map fun row => (row.1, ⟨row.2⟩))

def usualDestinations : Table String Path :=
  paths
    [("app_with_auth.ts", "src/App.tsx"),
      ("App.ts", "src/App.tsx"),
      ("auth_service.ts", "src/services/authService.ts"),
      ("encryption_service.ts", "src/services/encryptionService.ts"),
      ("storage_service.ts", "src/services/storageService.ts"),
      ("auth.ts", "src/services/auth.ts"),
      ("auth_types.ts", "src/types/auth.ts"),
      ("types.ts", "src/types/index.ts"),
      ("accessibility_constants.ts", "src/utils/accessibilityConstants.ts"),
      ("accessible_login.ts", "src/utils/accessibleLogin.ts"),
      ("essential_components.ts", "src/utils/essentialComponents.ts"),
      ("database-test.ts", "src/utils/databaseTest.ts"),
      ("enhanced_setup_auto-fixer.sh", "scripts/enhanced_setup_auto_fixer.sh"),
      ("smart_test_runner.sh", "scripts/smart_test_runner.sh"),
      ("test_runner.sh", "scripts/test_runner.sh"),
      ("sample_curriculum_data.json", "src/data/sampleCurriculumData.json"),
      ("supabase_schema.sql", "database/schema.sql"),
      ("performing_arts_curriculum.ts", "src/data/curriculum/performingArts.ts"),
      ("performing_arts_templates.ts", "src/data/templates/performingArts.ts")]

def usual : Layout where
  stagingDir := ⟨"downloads"⟩
  sourceDir := ⟨"src"⟩
  requiredDirs :=
    ["src/components", "src/services", "src/types", "src/data/curriculum",
      "src/data/templates", "src/data/samples", "src/database", "src/screens", "src/utils",
      "src/constants", "database", "docs", "scripts", "tests"].map Path.mk
  destinations := usualDestinations
  fallbackDir := ⟨"src/utils"⟩
  aliases := paths [("@/", "src")]
  probeExtensions := ["tsx", "ts", "jsx", "js"]
  sourceExtensions := ["ts", "tsx", "js", "jsx"]
  executableExtensions := ["sh"]
  threshold := .tenths 6

def withDestinations (layout : Layout) (rows : List (String × String)) : Layout :=
  { layout with
    destinations := rows.foldl (fun table row => table.insert nameOrder row.1 ⟨row.2⟩)
      layout.destinations }

def destinationFor (layout : Layout) (name : String) : Path :=
  (layout.destinations.lookup nameOrder name).getD (layout.fallbackDir.join ⟨name⟩)

def isSource (layout : Layout) (extension : String) : Bool :=
  layout.sourceExtensions.contains extension

def longestAliases (layout : Layout) : List (String × Path) :=
  layout.aliases.mergeSort fun a b => b.1.utf8ByteSize ≤ a.1.utf8ByteSize

def readMapping (text : String) : Option (String × String) :=
  let chars := text.toList
  let name := chars.takeWhile (· != '=')
  let path := chars.drop (name.length + 1)
  if name = [] || path = [] then none else some (String.ofList name, String.ofList path)

def mappingMessage (text : String) : String :=
  "Invalid mapping '" ++ text ++ "', expected 'name=path'"

end Layout

end Stowage
