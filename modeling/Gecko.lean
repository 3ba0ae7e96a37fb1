import Gecko.Conflicts.Basic
import Gecko.Conflicts.Blocker
import Gecko.Conflicts.Spenders
import Gecko.Conflicts.Steps
import Gecko.Conflicts.Session
import Gecko.Conflicts.Invariant
import Gecko.Conflicts.Decisions
import Gecko.Conflicts.Completeness
import Gecko.Avalanche.Issuer
import Gecko.Avalanche.Safety
import Gecko.Avalanche.Issuance
import Gecko.Avm.ManagedAsset
import Gecko.Avm.GetUTXO
import Gecko.Avm.FxUsage
import Gecko.Avm.Spend
import Gecko.Avm.Wallet
import Gecko.Avm.Mint
import Gecko.Avm.Utxos
import Gecko.Avm.PageWalk
import Gecko.Avm.AllUtxos
import Gecko.Avm.Pagination
import Gecko.Avm.Batching
import Gecko.Avm.Issue
import Gecko.Avm.Operations
import Gecko.Avm.FirstFit
import Gecko.Vertex.Builder
import Gecko.Utils.DynamicIP
