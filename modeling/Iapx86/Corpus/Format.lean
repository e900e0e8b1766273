import Iapx86.Corpus.Report

/-!
# Formats of corpus files and reports

How the cases are kept in a corpus file, and how a report is written into a file. A run is the same
whatever the format is; it may rely on the laws of a format that are stated as predicates of it.
-/

namespace Iapx86

namespace Corpus

/-- How cases are read from files and reports are written. -/
structure Format where
  /-- The cases that are in a file, if that is what is in it. -/
  cases? : List UInt8 → Option (List Case)
  /-- The text that is written for a report. -/
  report : Report → String

end Corpus

end Iapx86
