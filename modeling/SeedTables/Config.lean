import SeedTables.Schema.Basic

namespace SeedTables

inductive Policy where
  /-- The run ends before any statement is executed. -/
  | failFast
  /-- The run goes on without the table, and is reported as failed. -/
  | skipInvalid
  deriving DecidableEq

/-- The directories are texts; paths that are not valid UTF-8 are not represented. -/
structure Config where
  schemaDir : String := "schema"
  outputDir : String := "parquet"
  database : Option String := none
  policy : Policy := .failFast
  notNull : NotNullRule := .nullableTrue
  deriving DecidableEq

end SeedTables
