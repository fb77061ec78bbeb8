import Btls.Support.Runs
import Btls.Support.Interact
import Btls.Stream.Machine
import Btls.Stream.Packing
import Btls.Stream.Budget
import Btls.Stream.Moves
import Btls.Stream.Polls
import Btls.Stream.Armed
import Btls.Stream.Shutdown
import Btls.Stream.Polled
import Btls.Stream.Channel
import Btls.Stream.Blocking
import Btls.Seal.Atomic
import Btls.Seal.Wipe
import Btls.Seal.Budget
import Btls.Seal.Ivecs
import Btls.Seal.Tiling
import Btls.Limit.RecordSizeLimit
import Btls.Limit.Unconfirmed
import Btls.Limit.Fragment
import Btls.Limit.Retry
import Btls.Limit.Conversation
import Btls.Cbc.RecordDigest
import Btls.Session.Lineage
import Btls.Delegated.Credential
import Btls.Delegated.Certificate
import Btls.Delegated.Verify
import Btls.Delegated.Authentication
import Btls.Delegated.Lifetime
import Btls.Delegated.Exact
import Btls.Hello.InPlace
import Btls.Hello.LastExtension
import Btls.Hello.Order
import Btls.Hello.Closures
import Btls.Hello.Nss
import Btls.Ffdhe.KeyShare
import Btls.Ffdhe.Legacy
import Btls.Hybrid.KeyShare
import Btls.Hash.Messages
import Btls.Bridge.Operations
import Btls.Compression.Certificate
import Btls.ExData.Ownership
import Btls.ExData.Running
import Btls.Stack.Owned
import Btls.Errors.ErrorStack
import Btls.Errors.Returned
