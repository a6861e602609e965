import Sshstate.Proof.Relay
import Sshstate.Protocol.Pairing
import Sshstate.Enroll.Pairing
import Sshstate.Protocol.Sample
import Sshstate.Proof.Enroll
import Sshstate.Proof.Membership
import Sshstate.Proof.Chain
import Sshstate.Vault.Record
import Sshstate.Relay.Server
import Sshstate.Sync.Engine
import Sshstate.Lib.Run
import Sshstate.Proof.Vault
import Sshstate.Proof.Sync
import Sshstate.Sync.Fleet
import Sshstate.Proof.Backed
import Sshstate.Proof.Onward
import Sshstate.Proof.Paging
import Sshstate.Proof.Mutations
import Sshstate.Proof.Lineage
import Sshstate.Relay.Concurrent
import Sshstate.Proof.Concurrent
import Sshstate.Proof.Appends
import Sshstate.Relay.Pairing
import Sshstate.Proof.Pairing
import Sshstate.Sync.Page
import Sshstate.Proof.Pull
import Sshstate.Proof.Lone
import Sshstate.Sync.Rejoin
import Sshstate.Proof.Rejoin
import Sshstate.Proof.Lifetime
import Sshstate.Sync.Shared
import Sshstate.Proof.Shared
import Sshstate.Httpsig.Verify
import Sshstate.Httpsig.Sign
import Sshstate.Relay.Nonces
import Sshstate.Proof.Httpsig
import Sshstate.Proof.Replay
import Sshstate.Proof.Tamper
import Sshstate.Relay.Bootstrap
import Sshstate.Proof.Bootstrap
import Sshstate.Proof.Snapshot
import Sshstate.Proof.Text
import Sshstate.Export.Archive
import Sshstate.Lib.JsonText
import Sshstate.Proof.Codec
import Sshstate.Proof.Export
import Sshstate.Proof.Params
import Sshstate.Proof.Recovery
import Sshstate.Proof.Signing
import Sshstate.Proof.Strict
import Sshstate.Daemon.Generate
import Sshstate.Enroll.Snapshot
import Sshstate.Knownhosts.Entry
import Sshstate.Lib.Base32
import Sshstate.Lib.Glob
import Sshstate.Lib.Search
import Sshstate.Lib.Upsert
import Sshstate.Proof.Envelopes
import Sshstate.Proof.Fingerprint
import Sshstate.Proof.Jumps
import Sshstate.Proof.Patterns
import Sshstate.Proof.Session
import Sshstate.Proof.SnapshotCodec
import Sshstate.Sshconfig.Install
import Sshstate.Lib.Acyclic
import Sshstate.Lib.Serial
import Sshstate.Proof.Blocks
import Sshstate.Proof.Include
import Sshstate.Proof.Plan
import Sshstate.Proof.Manager
import Sshstate.Proof.Directory
import Sshstate.Proof.Edits
import Sshstate.Proof.Import
import Sshstate.Proof.Renderable
import Sshstate.Proof.Undone
import Sshstate.Proof.Reimport
import Sshstate.Sshconfig.Generate
import Sshstate.Vault.Import
import Sshstate.Vault.Manager
import Sshstate.Vault.Payload
import Sshstate.Vault.Sample
