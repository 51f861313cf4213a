import Mathlib
import UniSsh.Hosts.Profile

/-!
# Pinned destinations

A personal login is pinned to where its host pointed, as one string. Nothing in it is escaped and
a hop's reference stands for the hop; without separators and references it determines the route.
-/

namespace UniSsh

open List Option

/-! ## Text cut at a separator -/

section Cut

variable {α : Type} {c : α} {a b a' b' : List α}

end Cut

/-- None of the characters occurs in the text. -/
def FreeOf (chars : List Char) (text : String) : Prop := ∀ c ∈ chars, c ∉ text.toList

/-- A port in decimal. -/
def portText (port : UInt16) : String := toString port.toNat

variable {c : Char}

variable {host : String}

variable (trim : String → String)

/-- A template of nothing but blanks is none. -/
def templateText (usernameTemplate : Option String) : Option String :=
  (usernameTemplate.map trim).filter fun t => t ≠ ""

def canonicalHop (j : JumpHost) : String :=
  match j.hopRef with
  | some r => "ref=" ++ r.vaultId ++ "/" ++ r.profileUid
  | none => j.host ++ ":" ++ portText j.port ++ ":" ++ j.user

def canonicalJumps (jumps : List JumpHost) : String := ">".intercalate (jumps.map canonicalHop)

def ProxyKind.scheme : ProxyKind → String
  | .http => "http"
  | .socks4 => "socks4"
  | .socks5 => "socks5"

def ProxyConfig.user (p : ProxyConfig) : Option String := p.username.filter fun u => u ≠ ""

def canonicalProxy (p : ProxyConfig) : String :=
  match p.user with
  | some u => p.kind.scheme ++ "://" ++ u ++ "@" ++ p.host ++ ":" ++ portText p.port
  | none => p.kind.scheme ++ "://" ++ p.host ++ ":" ++ portText p.port

def personalDestination (host : String) (port : UInt16) (usernameTemplate : Option String)
    (jumps : List JumpHost) (proxy : Option ProxyConfig) : String :=
  let base := match templateText trim usernameTemplate with
    | some t => host ++ ":" ++ portText port ++ "#" ++ t
    | none => host ++ ":" ++ portText port
  let base := if jumps.isEmpty then base else base ++ "|via=" ++ canonicalJumps jumps
  match proxy with
  | some p => base ++ "|proxy=" ++ canonicalProxy p
  | none => base

def destination (p : ConnectionProfile) : String :=
  personalDestination trim p.host p.port p.usernameTemplate p.jumps p.proxy

/-! ## Routes -/

structure HopRoute where
  host : String
  port : UInt16
  user : String
  deriving DecidableEq

structure ProxyRoute where
  kind : ProxyKind
  host : String
  port : UInt16
  user : Option String
  deriving DecidableEq

/-- What a connection dials. -/
structure Route where
  host : String
  port : UInt16
  hops : List HopRoute
  proxy : Option ProxyRoute
  deriving DecidableEq

def JumpHost.written (j : JumpHost) : HopRoute := ⟨j.host, j.port, j.user⟩

def ProxyConfig.route (p : ProxyConfig) : ProxyRoute := ⟨p.kind, p.host, p.port, p.user⟩

/-- The route of a host all of whose hops are written out in it. -/
def ConnectionProfile.writtenRoute (p : ConnectionProfile) : Route :=
  ⟨p.host, p.port, p.jumps.map JumpHost.written, p.proxy.map ProxyConfig.route⟩

structure JumpHost.Plain (j : JumpHost) : Prop where
  unreferenced : j.hopRef = none
  host : FreeOf ['|', '>'] j.host
  user : FreeOf ['|', '>', ':'] j.user

structure ProxyConfig.Plain (p : ProxyConfig) : Prop where
  host : FreeOf ['|', '@'] p.host
  user : ∀ u ∈ p.user, FreeOf ['|'] u

/-- No hop is a reference, and no field holds what separates it from the next one. -/
structure ConnectionProfile.Plain (p : ConnectionProfile) : Prop where
  host : FreeOf ['#', '|'] p.host
  template : ∀ t ∈ templateText trim p.usernameTemplate, FreeOf ['|'] t
  hops : ∀ j ∈ p.jumps, j.Plain
  proxy : ∀ x ∈ p.proxy, x.Plain

/-! ## What a plain string determines -/

variable {j : JumpHost} {jumps jumps' : List JumpHost}

variable {trim}

variable {p q : ConnectionProfile}

end UniSsh
