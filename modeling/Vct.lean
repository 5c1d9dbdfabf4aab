import Vct.Controller.Errors
import Vct.Trillian.Types
import Vct.Command.Models
import Vct.Command.Controller
import Vct.Command.GetEntries
import Vct.Lib.Except
import Vct.Lib.Int64
import Vct.Lib.GoString
import Vct.StartCmd.Authorization
import Vct.Lib.GoMap
import Vct.StartCmd.ParseLogs
import Vct.Lib.Interleaving
import Vct.StartCmd.GetOrInit
import Vct.Tlsutil.Certpool
import Vct.Lib.Sql
import Vct.Storage.Schema
import Vct.Storage.TreeStorage
import Vct.Storage.LogStorage
import Vct.Storage.LogSystem
import Vct.Storage.Snapshot
import Vct.Storage.LeafQueue
import Vct.Storage.AdminStorage
import Vct.Storage.TreeLifecycle
import Vct.Storage.LeafEntries
import Vct.Command.AddVC
import Vct.Lib.Json
import Vct.Lib.JsonParse
import Vct.Storage.Transactions
import Vct.Storage.AddSequenced
import Vct.Storage.LogRoot
import Vct.Lib.Quote
import Vct.Controller.Rest
import Vct.Log.Logger
import Vct.Storage.Placeholder
import Vct.Lib.OrderedInsert
import Vct.Canonicalizer.Transform
import Vct.Canonicalizer.Read
import Vct.Canonicalizer.Canonical
import Vct.Lib.Decimal
import Vct.Canonicalizer.Marshal
import Vct.Command.Proofs
import Vct.Command.GetSTH
import Vct.Lib.ParseInt
import Vct.Controller.Params
