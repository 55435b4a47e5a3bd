import PgConsul.Boost.LexicalCast
import PgConsul.Consul.KVPair
import PgConsul.Json11.Parser

/-! # Peers

A peer is decoded from a `host:port` string and a list of peers from an array of such strings. The
error reference is threaded through: a decoder may be entered with a message already in it.
-/
namespace PgConsul.Consul
set_option autoImplicit false
open Foundations Json11

/-! ## Splitting -/

/-- `boost::split` at one character with `token_compress_on`: a run of separators is one. A round
takes at least a separator, so the length of the text bounds the rounds. -/
def splitTokens (sep : UInt8) : ℕ → Bytes → List Bytes
  | 0, s => [s]
  | fuel + 1, s =>
    match s.dropWhile (· ≠ sep) with
    | [] => [s]
    | rest => s.takeWhile (· ≠ sep) :: splitTokens sep fuel (rest.dropWhile (· = sep))

def split (sep : UInt8) (s : Bytes) : List Bytes := splitTokens sep s.length s

/-! ## One peer -/

structure Peer where
  host : Bytes := []
  port : UInt16 := 0
  leader : Bool := false
deriving DecidableEq

namespace Peer

def portStr (p : Peer) : Bytes := Boost.lcastPutUnsigned p.port.toNat

def str (p : Peer) : Bytes := p.host ++ chr ':' :: decimal p.port.toNat

def toJson (p : Peer) : Json := .string p.str

def json (p : Peer) : Bytes := dump p.toJson

/-- `operator==`, which does not look at the leader bit. -/
def equal (a b : Peer) : Bool := a.host = b.host && a.port = b.port

def setHost (host : Bytes) (p : Peer) : Bool × Peer := (true, { p with host := host })

def setPortStr (port : Bytes) (p : Peer) : Bool × Peer :=
  match Boost.lexicalCastPort port with
  | some port => (true, { p with port := port })
  | none => (false, p)

/-- `Peer::InitFromJson` on a JSON value. -/
def initFromJson (peer : Peer) (json : Json) (err : Bytes) : Init Peer :=
  if !json.isString then ⟨false, peer, ascii "Expected a JSON string object as input"⟩
  else if json.stringValue.length = 0 then ⟨true, { peer with leader := false }, err⟩
  else
    match split (chr ':') json.stringValue with
    | [host, port] =>
      let hosted := peer.setHost host
      if !hosted.1 then ⟨false, hosted.2, ascii "Failed to set host: " ++ host⟩
      else
        let ported := hosted.2.setPortStr port
        if !ported.1 then ⟨false, ported.2, ascii "Failed to set port: " ++ port⟩
        else ⟨true, ported.2, err⟩
    | _ =>
      ⟨false, peer,
        ascii "Expected a host:port pattern from string \"" ++ json.stringValue ++ ascii "\""⟩

/-- `Peer::InitFromJson` on a JSON text. -/
def initFromText (peer : Peer) (json err : Bytes) : Init Peer :=
  let parsed := parse json err
  let jr := parsed.1
  let err := parsed.2
  if err ≠ [] then
    ⟨false, peer, ascii "Failed to parse JSON from (" ++ json ++ ascii "): " ++ err⟩
  else if !jr.isString then
    ⟨false, peer, ascii "Expected a JSON string (" ++ json ++ ascii "): " ++ err⟩
  else initFromJson peer jr err

end Peer

/-! ## A list of peers -/

def initPeers (err : Bytes) : List Json → List Peer → Init (List Peer)
  | [], peers => ⟨true, peers, err⟩
  | jsPeer :: arr, peers =>
    let r := Peer.initFromJson {} jsPeer err
    if r.ok then initPeers r.err arr (peers ++ [r.target])
    else ⟨false, peers, ascii "Unable to set peer in peers: " ++ r.err⟩

/-- `Peers::InitFromJson`. A text that is no array leaves the message out of `err`. -/
def initFromJsonPeers (peers : List Peer) (json err : Bytes) : Init (List Peer) :=
  let parsed := parse json err
  let jr := parsed.1
  let err := parsed.2
  if err ≠ [] then ⟨false, peers, ascii "Parsing JSON failed: " ++ err⟩
  else if !jr.isArray then ⟨false, peers, err⟩
  else if jr.arrayItems = [] then ⟨false, peers, ascii "Unexpected empty array of peers"⟩
  else initPeers err jr.arrayItems peers

def markLeader (leader : Peer) : List Peer → List Peer
  | [] => []
  | peer :: peers =>
    if peer.equal leader then { peer with leader := true } :: peers
    else peer :: markLeader leader peers

end PgConsul.Consul
