import UniSsh.Vault.ExactChain
import UniSsh.Sync.Abort
import UniSsh.Sync.AccountStates
import UniSsh.Sync.KindSeparation
import UniSsh.Sync.Repull
import UniSsh.Server.ExactlyOnce
import UniSsh.Server.Revoking
import UniSsh.Sync.BlockedRotation
import UniSsh.Vault.OneRole
import UniSsh.Vault.Audit
import UniSsh.Sync.Accounting
import UniSsh.Vault.Sharing
import UniSsh.Vault.Contents
import UniSsh.Server.AuditChain
import UniSsh.Sync.Binding
import UniSsh.Server.Agreement
import UniSsh.Server.RecordSignatures
import UniSsh.Server.Keysets
import UniSsh.Server.Governance
import UniSsh.Server.SessionRuns
import UniSsh.Automation.Authorised
import UniSsh.Hosts.PersonalLogin
import UniSsh.Hosts.PinnedKeys
import UniSsh.Hosts.Groups
import UniSsh.Keys.HopRoutes
import UniSsh.Terminal.FillGuard
import UniSsh.Terminal.EchoRuns
import UniSsh.Sftp.ExternalEdit
import UniSsh.Keys.AgentServe
import UniSsh.Hosts.Glob
import UniSsh.Server.SpaceWide
