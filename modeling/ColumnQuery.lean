import ColumnQuery.Proofs.Aggregate.Moments
import ColumnQuery.Proofs.Aggregate.Quantile
import ColumnQuery.Proofs.Aggregate.Shared
import ColumnQuery.Proofs.BitSet.Enumeration
import ColumnQuery.Proofs.Formula.Lexical
import ColumnQuery.Proofs.Formula.Reimported
import ColumnQuery.Proofs.Formula.Validated
import ColumnQuery.Proofs.Mirror.Materialized
import ColumnQuery.Proofs.Number.Leading
import ColumnQuery.Proofs.Syntax.Chains
import ColumnQuery.Proofs.Table.Stored
import ColumnQuery.Proofs.Value.ReadBack
import ColumnQuery.Proofs.View.Filled
import ColumnQuery.Proofs.View.Fused
import ColumnQuery.Proofs.View.LookedUp
import ColumnQuery.Proofs.View.OwnGroup
import ColumnQuery.Proofs.View.PeerFrames
import ColumnQuery.Proofs.View.Peers
import ColumnQuery.Proofs.View.Reencoded
import ColumnQuery.Proofs.View.Refiltered
import ColumnQuery.Proofs.View.RolledUp
import ColumnQuery.Proofs.View.SetAlgebra
import ColumnQuery.Proofs.View.Sliced
import ColumnQuery.Proofs.View.Together
import ColumnQuery.Proofs.View.WholeGroups
import ColumnQuery.Proofs.Window.Positions
