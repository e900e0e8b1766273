import Iapx86.Corpus.Run
import Iapx86.Decoder.Result
import Iapx86.Decoder.Stream
import Iapx86.Main
import Iapx86.Proofs.Opcodes
import Iapx86.Proofs.Phases
import Iapx86.Proofs.Session
import Iapx86.Proofs.Stream
import Iapx86.Proofs.Addressing
import Iapx86.Proofs.Rejection
import Iapx86.Proofs.Gating
import Iapx86.Proofs.Trailing
import Iapx86.Proofs.Prefixes
import Iapx86.Proofs.Settled
import Iapx86.Proofs.Header
import Iapx86.Proofs.Answers
import Iapx86.Proofs.Alternatives
import Iapx86.Proofs.WellFormed
import Iapx86.Proofs.Extent
import Iapx86.Proofs.Viability
import Iapx86.Proofs.Shortfall
import Iapx86.Proofs.Listing
import Iapx86.Proofs.Numerals
import Iapx86.Proofs.OperandText
import Iapx86.Proofs.Origin
import Iapx86.Proofs.Readable
import Iapx86.Proofs.Reading
import Iapx86.Proofs.RegisterNames
import Iapx86.Proofs.Text
import Iapx86.Proofs.Words
import Iapx86.Proofs.Dispatch
import Iapx86.Proofs.Length
import Iapx86.Proofs.Widening
import Iapx86.Proofs.Names
import Iapx86.Proofs.Corpus.Mnemonic
import Iapx86.Proofs.Corpus.Coverage
import Iapx86.Proofs.Corpus.Report
import Iapx86.Proofs.Errors
import Iapx86.Proofs.FileTree
import Iapx86.Proofs.FileTree.Writing
import Iapx86.Proofs.Json
import Iapx86.Proofs.Corpus.Run
import Iapx86.Proofs.Corpus.Case
import Iapx86.Proofs.Corpus.Canonical
import Iapx86.Proofs.Corpus.Filter
import Iapx86.Proofs.Corpus.Repeat
import Iapx86.Proofs.OpcodeSets
import Iapx86.Proofs.Corpus.Stems
import Iapx86.Proofs.FlatDecoder
import Iapx86.Proofs.FlatDecoder.Refinement
import Iapx86.Proofs.FlatDecoder.Session
import Iapx86.Proofs.FlatDecoder.Stream
import Iapx86.Proofs.AddressText
import Iapx86.Proofs.Restart
