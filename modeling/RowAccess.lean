import RowAccess.Config
import RowAccess.Filter.Outline
import RowAccess.Proofs.Config.Validation
import RowAccess.Proofs.Event.Delivery
import RowAccess.Proofs.Filter.Dependencies
import RowAccess.Proofs.Filter.Operators
import RowAccess.Proofs.Filter.Outlines
import RowAccess.Proofs.Grant.Permissions
import RowAccess.Proofs.Lowering.Alignment
import RowAccess.Proofs.Lowering.Denial
import RowAccess.Proofs.Lowering.Exactness
import RowAccess.Proofs.Lowering.Flattening
import RowAccess.Proofs.Lowering.JoinHistory
import RowAccess.Proofs.Lowering.Kinds
import RowAccess.Proofs.Lowering.NormalForm
import RowAccess.Proofs.Lowering.Opacity
import RowAccess.Proofs.Lowering.Refinement
import RowAccess.Proofs.Lowering.Restricting
import RowAccess.Proofs.Lowering.Scoping
import RowAccess.Proofs.Lowering.Settling
import RowAccess.Proofs.Lowering.Skipping
import RowAccess.Proofs.Sql.Building
import RowAccess.Proofs.Storage.Columns
import RowAccess.Proofs.Storage.Definitions
import RowAccess.Restriction
import RowAccess.Storage.TableMapping
