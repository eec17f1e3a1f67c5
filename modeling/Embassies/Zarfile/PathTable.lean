import Embassies.Library.SearchTree
import Embassies.Zarfile.StringOrder
import Embassies.Zftp.CachedFile

/-!
# The index of a zarfile

A zarfile holds a table of path headers and a table of the strings they refer to.
The tool that writes it keeps its entries in a tree ordered by `strcmp` of the C
library and takes the least entry until the tree is empty.  The file system that
reads it searches the table of headers with `lite_strcmp`.
-/

namespace Embassies.Zarfile

open Library Library.Checked
open Embassies.Zftp (ZFTPFileMetadata)

/-- What a run of the code must never do. -/
inductive Fault where
  | assertion
  /-- A load outside a table. -/
  | outOfBounds
  /-- A sum of two `int`s that is not an `int`. -/
  | overflow
deriving DecidableEq

/-! ## Writing -/

/-- `CatalogEntry`, with what its `PHdr` is made from. -/
structure CatalogEntry where
  url : List UInt8
  noZero : 0 ∉ url
  fileLen : UInt32
  flags : UInt32
deriving DecidableEq

/-- `ZF_Phdr`, without the chunks of the file. -/
structure ZFPhdr where
  zPathStrOff : UInt32
  zPathStrLen : UInt32
  zFileLen : UInt32
  protocolMetadata : ZFTPFileMetadata
deriving DecidableEq

/-- `sizeof(ZF_Phdr)`: five words and the metadata. -/
def phdrSize : Nat := 4 * 5 + ZFTPFileMetadata.format.size

/-- The comparison of `CatalogEntryByUrl` with an entry. -/
def orderByUrl (wanted element : CatalogEntry) : Ordering :=
  strcmp element.url wanted.url

/-- `Catalog::add_entry`. -/
def addEntry (balance : SearchTree.Balance CatalogEntry)
    (urlTree : SearchTree CatalogEntry) (ce : CatalogEntry) :
    Except Fault (SearchTree CatalogEntry) :=
  match urlTree.lookup (orderByUrl ce) with
  | some _ => .ok urlTree
  | none => urlTree.insert balance (orderByUrl ce) ce .assertion

/-- The two tables. -/
structure PathIndex where
  ptable : List ZFPhdr
  strtable : List UInt8

/-- The header and the string of an entry go to the ends of the tables. -/
def PathIndex.addEntry (index : PathIndex) (ce : CatalogEntry) : PathIndex where
  ptable := index.ptable ++ [{
    zPathStrOff := UInt32.ofNat index.strtable.length
    zPathStrLen := UInt32.ofNat ce.url.length
    zFileLen := ce.fileLen
    protocolMetadata := ⟨ce.fileLen, ce.flags⟩ }]
  strtable := index.strtable ++ (ce.url ++ [0])

/-- The loop of `Catalog::enumerate_entries`, for at most so many entries. -/
def enumerateEntries (balance : SearchTree.Balance CatalogEntry) :
    Nat → SearchTree CatalogEntry → PathIndex → Except Fault PathIndex
  | 0, _, index => .ok index
  | fuel + 1, urlTree, index =>
    match urlTree.findMin with
    | none => .ok index
    | some ce => do
      let urlTree ← urlTree.remove balance (orderByUrl ce) .assertion
      enumerateEntries balance fuel urlTree (index.addEntry ce)

/-- The index of a catalog. -/
def writeIndex (balance : SearchTree.Balance CatalogEntry)
    (urlTree : SearchTree CatalogEntry) : Except Fault PathIndex :=
  enumerateEntries balance urlTree.toList.length urlTree ⟨[], []⟩

/-! ## Reading -/

namespace PathIndex

/-- The string that a header refers to. -/
def pathString (index : PathIndex) (phdr : ZFPhdr) : List UInt8 :=
  (index.strtable.drop phdr.zPathStrOff.toNat).takeWhile fun byte => byte ≠ 0

/-- `_phdr_key_cmp`, at a place of the table. -/
def phdrKeyCmp (index : PathIndex) (key : List UInt8) (place : Nat) :
    Except Fault Int :=
  match index.ptable[place]? with
  | none => .error .outOfBounds
  | some phdr => .ok (liteStrcmp key (index.pathString phdr))

/-- The loop of `binsearch`. -/
def binsearch (compar : Nat → Except Fault Int) (lo hi : Nat) :
    Except Fault (Option Nat) :=
  if lo < hi then do
    ensure (lo + hi < 2 ^ 31) .overflow
    let mid := (lo + hi) / 2
    let v ← compar mid
    if v = 0 then return some mid
    else if v < 0 then binsearch compar lo mid
    else binsearch compar (mid + 1) hi
  else
    return none
termination_by hi - lo

/-- The search of `ZarfileVFS::open`, with the place of the header that it finds. -/
def lookup (index : PathIndex) (key : List UInt8) : Except Fault (Option Nat) :=
  if index.ptable.length = 0 then
    .ok none
  else
    binsearch (index.phdrKeyCmp key) 0 index.ptable.length

end PathIndex

end Embassies.Zarfile
