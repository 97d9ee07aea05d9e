import Keystroke.Cli.Directory
import Keystroke.Main
import Keystroke.Proofs.ContainerDiscipline
import Keystroke.Proofs.FunctionSegments
import Keystroke.Proofs.StorageClashes
import Keystroke.Proofs.TextStores
import Keystroke.Proofs.RegisterDemand
import Keystroke.Proofs.NestingLimit
import Keystroke.Proofs.RangeLoops
import Keystroke.Proofs.Dictionaries
import Keystroke.Proofs.RoutineContracts
import Keystroke.Proofs.ListOperations
import Keystroke.Proofs.CallArguments
import Keystroke.Proofs.MatrixStorage
import Keystroke.Proofs.LibraryClosure
import Keystroke.Proofs.OtherNames
import Keystroke.Proofs.ScopeDiscipline
import Keystroke.Proofs.ReportedLines
import Keystroke.Proofs.PrintedLines
import Keystroke.Proofs.Placeholders
import Keystroke.Proofs.LineComments
