import ScriptMigration.Text.Name

/-! The settings of a migration. -/
namespace ScriptMigration

structure MigrationOptions where
  /-- How often types are inferred before the last time, which reports what is not known. -/
  maxAttempts : Nat := 5
  /-- The namespace of the result, whose imports come first. -/
  baseNamespace : String := "Migrated"
  memberCacheCapacity : Nat := 512
  returnLocalName : String := "result"
  missingFieldName : String := "_missing"
  outerFieldName : String := "_outer"
  formFieldName : String := "_form"
  resourceNameStart : String := "Str"
  /-- The types whose calls with one string give a localized text. -/
  translatorTypes : List String := ["Translator"]
deriving DecidableEq, Repr, Inhabited

def MigrationOptions.isTranslator (options : MigrationOptions) (name : String) : Bool :=
  options.translatorTypes.any (sameName · name)

end ScriptMigration
