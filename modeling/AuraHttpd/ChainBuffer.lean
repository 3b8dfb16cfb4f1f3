import AuraHttpd.Upload
import AuraHttpd.Lib.Chain

/-!
# Buffers in chains

libevent's own representation of an `evbuffer`: a list of chains.  An `evbuffer_ptr` records the
chain it leads to and the offset in the data the chain holds at the moment; `evbuffer_drain` and
`evbuffer_readln` free the chains that are used up and advance the first one that is left, and
`evbuffer_peek` begins at the recorded chain and offset.
-/

namespace AuraHttpd

open CString

/-- An `evbuffer`: its chains are at different addresses, all of them below `brk`. -/
structure ChainBuffer where
  chains : List (Chain UInt8)
  brk : ℕ
  nodup : (chains.map Chain.addr).Nodup
  below : ∀ addr ∈ chains.map Chain.addr, addr < brk

namespace ChainBuffer

def bytes (e : ChainBuffer) : Bytes := Chain.content e.chains

def pieces (e : ChainBuffer) : List Bytes := e.chains.map Chain.data

/-- A body that arrived in pieces. -/
def ofPieces (pieces : List Bytes) : ChainBuffer where
  chains := Chain.number 0 pieces
  brk := pieces.length
  nodup := by
    rw [Chain.map_addr_number]
    exact List.nodup_range'
  below := by
    simp [Chain.map_addr_number]

/-- `evbuffer_drain`. -/
def drain (e : ChainBuffer) (n : ℕ) : ChainBuffer where
  chains := Chain.drain e.chains n
  brk := e.brk
  nodup := e.nodup.sublist (Chain.map_addr_drain e.chains n).sublist
  below := fun addr h => e.below addr ((Chain.map_addr_drain e.chains n).subset h)

/-- `evbuffer_search`. -/
def search (e : ChainBuffer) (pat : Bytes) : Option (EvbufferPtr (ℕ × ℕ)) := do
  let pos ← ListSearch.search pat e.bytes
  let internal ← Chain.locate e.chains pos
  some ⟨pos, internal⟩

/-- `evbuffer_readln`. -/
def readln (e : ChainBuffer) : Option (Bytes × ChainBuffer) :=
  (readlnCrlf e.bytes).map fun (line, rest) => (line, e.drain (e.bytes.length - rest.length))

/-- The loop of `evbuffer_peek` for a length that is not negative: the extents behind those that
hold `lenSoFar` bytes. -/
def peekLoop (len : ℕ) (lenSoFar : ℕ) : List (Chain UInt8) → List Bytes
  | [] => []
  | chain :: chains =>
    if len ≤ lenSoFar then []
    else chain.data :: peekLoop len (lenSoFar + chain.data.length) chains

/-- `evbuffer_peek`; the pointer leads nowhere where its chain was freed or holds less than its
offset.  A negative length asks for everything there is room for, or, without any room, for
everything behind the pointer. -/
def peek (e : ChainBuffer) (len : ℤ) (start : EvbufferPtr (ℕ × ℕ)) (nVec : ℕ) :
    Option (ℕ × List Bytes) :=
  match Chain.seek e.chains start.internal.1 with
  | [] => none
  | chain :: chains =>
    if chain.data.length < start.internal.2 then none
    else
      let first := chain.data.drop start.internal.2
      let len := if nVec = 0 ∧ len < 0 then (e.bytes.length : ℤ) - start.pos else len
      let vec :=
        if len < 0 then first :: (chains.map Chain.data).take (nVec - 1)
        else first :: peekLoop len.toNat first.length chains
      some (vec.length, vec.take nVec)

/-- The first `n` bytes in a chain of their own. -/
def gather (e : ChainBuffer) (n : ℕ) : ChainBuffer where
  chains := ⟨e.brk, e.bytes.take n⟩ :: (e.drain n).chains
  brk := e.brk + 1
  nodup := by
    rw [List.map_cons, List.nodup_cons]
    exact ⟨fun h => Nat.lt_irrefl _ ((e.drain n).below _ h), (e.drain n).nodup⟩
  below := by
    rw [List.map_cons, List.forall_mem_cons]
    exact ⟨Nat.lt_succ_self _, fun addr h => Nat.lt_succ_of_lt ((e.drain n).below addr h)⟩

/-- `evbuffer_pullup`: the bytes asked for are put into one chain unless the first one holds
them. -/
def pullup (e : ChainBuffer) (n : ℕ) : Option (Bytes × ChainBuffer) :=
  let first := e.pieces.headD []
  if n ≤ first.length then some (first.take n, e)
  else if n ≤ e.bytes.length then some (e.bytes.take n, e.gather n)
  else none

end ChainBuffer

instance : Evbuffer ChainBuffer (ℕ × ℕ) where
  length e := e.bytes.length
  search := ChainBuffer.search
  drain := ChainBuffer.drain
  readln := ChainBuffer.readln
  peek := ChainBuffer.peek
  pullup := ChainBuffer.pullup

/-- A request whose body arrived in the given pieces. -/
def UploadRequest.split (request : UploadRequest Bytes) (pieces : List Bytes) :
    UploadRequest ChainBuffer :=
  { command := request.command
    contentType := request.contentType
    body := .ofPieces pieces
    failures := request.failures
    parserFailures := request.parserFailures }

end AuraHttpd
