import ChartLift.Extraction.Run
import ChartLift.Files.Path

/-!
# Summaries

What a run has done, in numbers.
-/

namespace ChartLift

/-- The numbers of a run's outcome, after `written` files have been written to a directory. -/
def Outcome.summary (outcome : Outcome) (destination : FilePath) (written : Nat) : List String :=
  let report := outcome.report
  let line (name : String) (n : Nat) : String := "  " ++ name ++ ": " ++ toString n
  let reasons := "internal " ++ toString (report.skippedFor .internal)
    ++ ", not yaml " ++ toString (report.skippedFor .notYaml)
    ++ ", undecodable " ++ toString (report.skippedFor .undecodable)
  ["move-to-values", line "documents" report.documents.length,
    line "rewritten" report.rewrittenCount, line "patches applied" report.patchCount,
    line "skipped" report.skippedCount ++ " (" ++ reasons ++ ")", line "values" outcome.values.size]
  ++ (if report.warnings.isEmpty then [] else [line "warnings" report.warnings.length])
  ++ [line "diagnostics" report.diagnostics.length,
    line "files written" written ++ " to " ++ destination.text]
  ++ (if report.isClean then ["ok"] else [])

end ChartLift
