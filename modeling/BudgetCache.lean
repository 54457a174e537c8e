import BudgetCache.Main
import BudgetCache.Proofs.ChainHolds
import BudgetCache.Proofs.ChainRuns
import BudgetCache.Proofs.ChainShape
import BudgetCache.Proofs.Reference
import BudgetCache.Proofs.TableAgreement
import BudgetCache.Proofs.Refinement
import BudgetCache.Proofs.CacheHistory
import BudgetCache.Proofs.Copying
import BudgetCache.Proofs.Reachable
import BudgetCache.Proofs.Fitting
import BudgetCache.Proofs.BudgetSafety
import BudgetCache.Proofs.Inclusion
import BudgetCache.Proofs.Steps
import BudgetCache.Proofs.Recall
import BudgetCache.Proofs.Evictions
import BudgetCache.Proofs.EvictionOrder
import BudgetCache.Proofs.CopyEquivalence
import BudgetCache.Proofs.Accounting
import BudgetCache.Proofs.KeyIdentity
import BudgetCache.Proofs.SlotLayout
import BudgetCache.Proofs.Grammar
import BudgetCache.Proofs.UnitCost
import BudgetCache.Proofs.DumpRows
import BudgetCache.Proofs.DumpText
import BudgetCache.Proofs.Noninterference
import BudgetCache.Proofs.LineEndings
import BudgetCache.Proofs.ScriptedSessions
import BudgetCache.Proofs.DumpLossless
import BudgetCache.Proofs.Replaying
import BudgetCache.Proofs.LimitSources
import BudgetCache.Proofs.Storing
import BudgetCache.Proofs.Lowering
import BudgetCache.Proofs.AuditTrail
import BudgetCache.Proofs.RoomBeforehand
import BudgetCache.Proofs.Refusals
import BudgetCache.Proofs.SlotReuse
import BudgetCache.Proofs.Responses
import BudgetCache.Proofs.EvictionLoops
import BudgetCache.Proofs.Strictness
import BudgetCache.Proofs.Percentages
