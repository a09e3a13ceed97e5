import Ownserver.Basic
import Ownserver.Registry
import Ownserver.Store.Defs
import Ownserver.Store.Keys
import Ownserver.Store.Lifecycle
import Ownserver.Store.Index
import Ownserver.Store.Ownership
import Ownserver.Store.Interleaving
import Ownserver.Connections
import Ownserver.Forwarding
import Ownserver.Connections.Shared
