import VariantChess.CommandLine
import VariantChess.Main
import VariantChess.Proofs.Annotations
import VariantChess.Proofs.Delivery
import VariantChess.Proofs.FirstMove
import VariantChess.Proofs.ForcedMate
import VariantChess.Proofs.Hops
import VariantChess.Proofs.LayoutGrammar
import VariantChess.Proofs.LeapTables
import VariantChess.Proofs.LegalLines
import VariantChess.Proofs.MoveQueues
import VariantChess.Proofs.RouteTables
import VariantChess.Proofs.StartingBoards
import VariantChess.Proofs.Storage
import VariantChess.Proofs.StoredBoards
import VariantChess.Proofs.Untouched
import VariantChess.Proofs.Walks
import VariantChess.Proofs.WellFormed
