import Sockrocket.Router.Rule

/-!
# GeoIP database

`router::geoip`: CIDR to country mappings, kept in one table per address family. A table that has
been built is sorted by decreasing prefix length and searched per prefix length; a table with later
additions is searched in the order of its entries.
-/

namespace Sockrocket

open Rust

/-- One network and its country. -/
structure GeoEntry where
  addr : BitVec 128
  prefixLen : Nat
  country : Str
deriving DecidableEq, Repr

/-- Entries, and for each populated prefix length its mask and its range of entries. -/
structure GeoTable where
  entries : List GeoEntry
  prefixes : List (BitVec 128 × Nat × Nat)
deriving DecidableEq, Repr

namespace GeoTable

/-- A table without entries. -/
def empty : GeoTable :=
  ⟨[], []⟩

/-- The mask of a prefix, in the 128-bit representation both families share. -/
def mask (totalBits prefixLen : Nat) : BitVec 128 :=
  BitVec.allOnes 128 <<< (totalBits - prefixLen)

/-- Add an entry; the table then counts as not built. -/
def push (table : GeoTable) (entry : GeoEntry) : GeoTable :=
  ⟨table.entries ++ [entry], []⟩

/-- `slice::partition_point`: the number of leading items that satisfy the predicate. -/
def partitionPoint {α : Type} (p : α → Bool) (items : List α) : Nat :=
  (items.takeWhile p).length

/-- Look in one range of a built table. -/
def lookupRange (entries : List GeoEntry) (ip : BitVec 128) (range : BitVec 128 × Nat × Nat) :
    Option Str :=
  let (mask, start, last) := range
  let network := ip &&& mask
  let candidates := (entries.drop start).take (last - start)
  match candidates[partitionPoint (fun entry => entry.addr < network) candidates]? with
  | some entry => if entry.addr = network then some entry.country else none
  | none => none

/-- The country of an address. -/
def lookup (totalBits : Nat) (table : GeoTable) (ip : BitVec 128) : Option Str :=
  if table.prefixes = [] then
    (table.entries.find? fun entry => ip &&& mask totalBits entry.prefixLen == entry.addr).map
      GeoEntry.country
  else table.prefixes.findSome? (lookupRange table.entries ip)

end GeoTable

/-- The GeoIP database. -/
structure GeoIpDb where
  v4Entries : GeoTable
  v6Entries : GeoTable
deriving DecidableEq, Repr

namespace GeoIpDb

/-- `GeoIpDb::new`. -/
def new : GeoIpDb :=
  ⟨GeoTable.empty, GeoTable.empty⟩

/-- Add a CIDR to country mapping. Texts that are not a CIDR are ignored. -/
def addEntry (db : GeoIpDb) (cidr country : Str) : GeoIpDb :=
  match splitOnce "/".toList cidr with
  | none => db
  | some (address, bits) =>
    match parseIp address, parseUnsigned 255 bits with
    | some (.v4 ip), some prefixLen =>
      if 32 < prefixLen then db
      else
        let addr := ip.setWidth 128 &&& GeoTable.mask 32 prefixLen
        { db with v4Entries := db.v4Entries.push ⟨addr, prefixLen, toUppercase country⟩ }
    | some (.v6 ip), some prefixLen =>
      if 128 < prefixLen then db
      else
        let addr := ip &&& GeoTable.mask 128 prefixLen
        { db with v6Entries := db.v6Entries.push ⟨addr, prefixLen, toUppercase country⟩ }
    | _, _ => db

/-- The country of an address. -/
def lookup (db : GeoIpDb) : IpAddr → Option Str
  | .v4 ip => db.v4Entries.lookup 32 (ip.setWidth 128)
  | .v6 ip => db.v6Entries.lookup 128 ip

/-- The address is classified as mainland China. -/
def isCn (db : GeoIpDb) (ip : IpAddr) : Bool :=
  (db.lookup ip).any fun country => eqIgnoreAsciiCase country "CN".toList

end GeoIpDb

end Sockrocket
