import Mathlib.Logic.Basic

/-!
# Saved hosts

Where a host is, how its login is proven and how it is reached. A hop is written out in the host
or refers to another saved host.
-/

namespace UniSsh

/-- How a saved host's own login is proven; items are of the host's vault. -/
inductive ProfileAuth where
  | key (keyItemId : String)
  | vaultPassword (passwordItemId : String)
  | promptPassword
  | systemAgent (publicKey : String)
  /-- No stored credential: each member of the vault binds an identity of their own. -/
  | personal
  deriving DecidableEq

/-- How one login of a connection is proven. -/
inductive AuthMethod where
  | agent (vaultId keyItemId : String)
  | password (password : String)
  | vaultPassword (vaultId passwordItemId : String)
  | systemAgent (publicKey : String)
  deriving DecidableEq

/-- A reference to a saved host. -/
structure HopRef where
  vaultId : String
  profileUid : String
  deriving DecidableEq

/-- A hop in front of a host; with a reference the other fields are ignored. -/
structure JumpHost where
  host : String
  port : UInt16
  user : String
  auth : AuthMethod
  hopRef : Option HopRef
  deriving DecidableEq

inductive ProxyKind where
  | http
  | socks4
  | socks5
  deriving DecidableEq

inductive ProxyPassword where
  | vault (vaultId passwordItemId : String)
  | inline (password : String)
  deriving DecidableEq

/-- The proxy of a first dial. -/
structure ProxyConfig where
  kind : ProxyKind
  host : String
  port : UInt16
  username : Option String
  password : Option ProxyPassword
  deriving DecidableEq

/-- A saved host. -/
structure ConnectionProfile where
  profileId : String
  /-- The immutable identity of the host. -/
  uid : String
  label : String
  host : String
  port : UInt16
  user : String
  auth : ProfileAuth
  usernameTemplate : Option String
  jumps : List JumpHost
  proxy : Option ProxyConfig
  deriving DecidableEq

end UniSsh
