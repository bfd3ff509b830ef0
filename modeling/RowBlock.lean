import RowBlock.Main
import RowBlock.Rehearsal
import RowBlock.Session
import RowBlock.Decimal.Reading
import RowBlock.Proofs.CommandLines
import RowBlock.Proofs.DrawnOperands
import RowBlock.Proofs.EvenTilings
import RowBlock.Proofs.ExactReplies
import RowBlock.Proofs.FailureReports
import RowBlock.Proofs.GivenFiles
import RowBlock.Proofs.LoadedTables
import RowBlock.Proofs.MessageTraffic
import RowBlock.Proofs.ProductFile
import RowBlock.Proofs.Rendezvous
import RowBlock.Proofs.ReportReading
import RowBlock.Proofs.ResultCheck
import RowBlock.Proofs.WorkerFailures
