/-! Sums and powers of numbers are those of the core library, whatever else is imported. -/
namespace ScriptMigration

attribute [scoped instance (high)] Zero.ofOfNat0 instPowNat

end ScriptMigration
