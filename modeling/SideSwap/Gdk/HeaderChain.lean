import SideSwap.Gdk.Headers

/-!
# The chain of headers

What `push` and `remove` make of a chain whose file and memory agree (`HeadersChain.Aligned`), where
each header in the file may follow those before it (`ValidChain`):

* `push_iff`: `push` succeeds if and only if the file with the new headers is a valid chain, so that
  it does not matter in which portions headers come;
* `push_fails`: if it fails, then what it accepted is in memory, but only a part of it in the file;
* `remove_after`: headers can be taken off again if and only if the height that is left is in the
  file.
-/

namespace SideSwap.Gdk

open Libwally Call

variable {lib : BlockLib}

/-! ### Valid chains -/

/-- A header may follow a chain, the last header of which is given. -/
structure Follows (lib : BlockLib) (file : List Header) (last h : Header) : Prop where
  prev : lib.blockHash last = h.prevBlockhash
  pow : lib.validatePow h = true
  bits : if file.length % diffchangeInterval = 0 then
      ∃ first, file[file.length - diffchangeInterval]? = some first ∧
        h.bits = lib.compactTarget (calcDifficultyRetarget lib first last)
    else h.bits = last.bits
  checkpoint : ∀ hash, lib.checkpoints file.length = some hash → hash = lib.blockHash h

/-- The headers from the genesis block on, each of which may follow. -/
inductive ValidChain (lib : BlockLib) : List Header → Prop
  | genesis : ValidChain lib [lib.genesis]
  | snoc {file : List Header} {last h : Header} (valid : ValidChain lib file)
      (hlast : file.getLast? = some last) (follows : Follows lib file last h) :
      ValidChain lib (file ++ [h])

theorem ValidChain.ne_nil {file : List Header} (h : ValidChain lib file) : file ≠ [] := by
  cases h with
  | genesis => simp
  | snoc => simp

/-- The step of a valid chain. -/
theorem ValidChain.snoc_iff {file : List Header} {last h : Header} (hlast : file.getLast? = some last) :
    ValidChain lib (file ++ [h]) ↔ ValidChain lib file ∧ Follows lib file last h := by
  constructor
  · intro hvalid
    generalize hwhole : file ++ [h] = whole at hvalid
    cases hvalid with
    | genesis =>
      have hnil : file = [] := by
        have hlen := congrArg List.length hwhole
        rw [List.length_append, List.length_singleton, List.length_singleton] at hlen
        exact List.length_eq_zero_iff.mp (by omega)
      rw [hnil] at hlast
      cases hlast
    | snoc valid hlast' follows =>
      obtain ⟨rfl, hh⟩ := List.append_inj' hwhole rfl
      rw [List.cons.injEq] at hh
      rw [hlast, Option.some.injEq] at hlast'
      rw [hh.1, hlast']
      exact ⟨valid, follows⟩
  · exact fun hvalid => .snoc hvalid.1 hlast hvalid.2

theorem exists_getLast {l : List Header} (h : l ≠ []) : ∃ last, l.getLast? = some last :=
  ⟨l.getLast h, List.getLast?_eq_some_getLast h⟩

/-- A part of a valid chain from its beginning is a valid chain. -/
theorem ValidChain.of_append {file : List Header} (rest : List Header) (hfile : file ≠ [])
    (h : ValidChain lib (file ++ rest)) : ValidChain lib file := by
  induction rest using List.reverseRecOn with
  | nil => rwa [List.append_nil] at h
  | append_singleton rest x ih =>
    obtain ⟨last, hlast⟩ := exists_getLast (l := file ++ rest) (by simp [hfile])
    rw [← List.append_assoc, ValidChain.snoc_iff hlast] at h
    exact ih h.1

theorem ValidChain.take {file : List Header} (h : ValidChain lib file) {n : ℕ} (hn : 0 < n) :
    ValidChain lib (file.take n) := by
  refine ValidChain.of_append (file.drop n) ?_ (by rwa [List.take_append_drop])
  rw [ne_eq, List.take_eq_nil_iff, not_or]
  exact ⟨Nat.ne_of_gt hn, h.ne_nil⟩

/-! ### One header -/

/-- What is in memory is the end of a chain, a part of which is in the file. -/
structure Torn (chain : HeadersChain) (whole : List Header) : Prop where
  file_eq : ∃ rest, whole = chain.file ++ rest
  height_eq : chain.height + 1 = whole.length
  last_eq : whole.getLast? = some chain.last

/-- What `push` has accepted is a valid chain. -/
structure Pushing.Inv (lib : BlockLib) (p : Pushing) (whole : List Header) : Prop where
  whole_eq : whole = p.chain.file ++ p.serialized
  height_eq : p.chain.height + 1 = whole.length
  last_eq : whole.getLast? = some p.chain.last
  valid : ValidChain lib whole

namespace Pushing.Inv

variable {p : Pushing} {whole : List Header}

theorem torn (h : p.Inv lib whole) : Torn p.chain whole where
  file_eq := ⟨p.serialized, h.whole_eq⟩
  height_eq := h.height_eq
  last_eq := h.last_eq

theorem withBits (h : p.Inv lib whole) (bits : ℕ) :
    ({ p with currBits := bits } : Pushing).Inv lib whole where
  whole_eq := h.whole_eq
  height_eq := h.height_eq
  last_eq := h.last_eq
  valid := h.valid

theorem flush (h : p.Inv lib whole) : p.flush.Inv lib whole where
  whole_eq := by
    rw [h.whole_eq]
    exact (List.append_nil _).symm
  height_eq := h.height_eq
  last_eq := h.last_eq
  valid := h.valid

end Pushing.Inv

/-- The outcome of a round: the header is added, or `push` fails with the header not being one that
may follow. -/
def Pushing.Outcome (lib : BlockLib) (p : Pushing) (whole : List Header) (x : Header)
    (result : Pushing × Call Error Unit) : Prop :=
  (∃ written, result.1.chain.file = p.chain.file ++ written) ∧
  ((result.2 = .ok () ∧ result.1.Inv lib (whole ++ [x]) ∧ result.1.currBits = result.1.chain.last.bits) ∨
    (result.2 = .error (.error .invalidHeaders) ∧ Torn result.1.chain whole ∧
      ¬ Follows lib whole p.chain.last x))

/-- The last check, after the others. -/
theorem Pushing.accept_spec {p : Pushing} {whole : List Header} (h : p.Inv lib whole) {x : Header}
    (hbits : p.currBits = x.bits)
    (hfollows : (∀ hash, lib.checkpoints whole.length = some hash → hash = lib.blockHash x) →
      Follows lib whole p.chain.last x) :
    p.Outcome lib whole x (p.accept lib x) := by
  simp only [accept, h.height_eq]
  split
  · rename_i hcheckpoint
    refine ⟨⟨[], (List.append_nil _).symm⟩, .inr ⟨rfl, h.torn, fun hf => ?_⟩⟩
    obtain ⟨hash, hhash, hne⟩ := (Option.any_eq_true _ _).mp hcheckpoint
    exact of_decide_eq_true hne (hf.checkpoint hash hhash)
  · rename_i hcheckpoint
    have hf := hfollows fun hash hhash => by
      by_contra hne
      rw [hhash] at hcheckpoint
      exact hcheckpoint (decide_eq_true hne)
    refine ⟨⟨[], (List.append_nil _).symm⟩, .inl ⟨rfl, ?_, hbits⟩⟩
    constructor
    · rw [h.whole_eq]
      exact List.append_assoc _ _ _
    · rw [List.length_append, List.length_singleton]
    · exact List.getLast?_concat
    · exact .snoc h.valid h.last_eq hf

/-- A round of the loop accepts the header if and only if it may follow. -/
theorem Pushing.header_spec {p : Pushing} {whole : List Header} (h : p.Inv lib whole)
    (hbits : p.currBits = p.chain.last.bits) (x : Header) :
    p.Outcome lib whole x (p.header lib x) := by
  simp only [header, h.height_eq]
  split
  · -- the header does not connect, or it has no work behind it
    rename_i hconnect
    refine ⟨⟨[], (List.append_nil _).symm⟩, .inr ⟨rfl, h.torn, fun hf => ?_⟩⟩
    rcases hconnect with hprev | hpow
    · exact hprev hf.prev
    · rw [hf.pow] at hpow
      cases hpow
  · rename_i hconnect
    rw [not_or, not_not, Bool.not_eq_false] at hconnect
    -- a period begins, for which what was collected is written first
    split
    · rename_i hadjust
      have hfile : p.flush.chain.file = whole := h.whole_eq.symm
      obtain ⟨first, hfirst⟩ : ∃ first, whole[whole.length - diffchangeInterval]? = some first := by
        have hpos := List.length_pos_of_ne_nil h.valid.ne_nil
        exact ⟨_, List.getElem?_eq_getElem (Nat.sub_lt hpos (by decide))⟩
      simp only [HeadersChain.get, hfile, hfirst, okOr]
      split
      · -- the target is not the adjusted one
        rename_i hne
        refine ⟨⟨p.serialized, rfl⟩, .inr ⟨rfl, h.flush.torn, fun hf => ?_⟩⟩
        have hbits' := hf.bits
        rw [if_pos hadjust, hfirst] at hbits'
        obtain ⟨_, hsame, hbits'⟩ := hbits'
        cases hsame
        exact hne hbits'
      · -- it is, and the header is accepted after the checkpoints
        rename_i heq
        rw [not_not] at heq
        obtain ⟨⟨written, hwritten⟩, houtcome⟩ :=
          accept_spec (x := x) (h.flush.withBits x.bits) rfl fun hcheckpoint =>
            ⟨hconnect.1, hconnect.2, by rw [if_pos hadjust]; exact ⟨first, hfirst, heq⟩, hcheckpoint⟩
        refine ⟨⟨p.serialized ++ written, ?_⟩, houtcome⟩
        rw [hwritten, ← List.append_assoc]
        rfl
    · rename_i hadjust
      -- within a period the target must be the one of before
      split
      · rename_i hne
        refine ⟨⟨[], (List.append_nil _).symm⟩, .inr ⟨rfl, h.torn, fun hf => ?_⟩⟩
        have := hf.bits
        rw [if_neg hadjust, ← hbits] at this
        exact hne this
      · rename_i heq
        rw [not_not] at heq
        refine accept_spec h heq.symm fun hcheckpoint => ⟨hconnect.1, hconnect.2, ?_, hcheckpoint⟩
        rw [if_neg hadjust, ← hbits]
        exact heq

/-! ### Adding headers -/

/-- File and memory agree on a valid chain. -/
structure HeadersChain.Aligned (lib : BlockLib) (chain : HeadersChain) : Prop where
  height_eq : chain.height + 1 = chain.file.length
  last_eq : chain.file.getLast? = some chain.last
  valid : ValidChain lib chain.file

/-- The loop of `push`: the chain is extended, or a part of the headers is accepted and the next one
may not follow. -/
theorem Pushing.headers_spec {p : Pushing} {whole : List Header} (h : p.Inv lib whole)
    (hbits : p.currBits = p.chain.last.bits) (newHeaders : List Header) :
    (∃ written, (p.headers lib newHeaders).1.file = p.chain.file ++ written) ∧
    (((p.headers lib newHeaders).2 = .ok () ∧ (p.headers lib newHeaders).1.Aligned lib ∧
        (p.headers lib newHeaders).1.file = whole ++ newHeaders) ∨
      ((p.headers lib newHeaders).2 = .error (.error .invalidHeaders) ∧
        ∃ accepted x rest, newHeaders = accepted ++ x :: rest ∧ ValidChain lib (whole ++ accepted) ∧
          Torn (p.headers lib newHeaders).1 (whole ++ accepted) ∧
          ¬ ValidChain lib (whole ++ accepted ++ [x]))) := by
  induction newHeaders generalizing p whole with
  | nil =>
    -- at the end of the call everything is written
    have hfile : p.flush.chain.file = whole := h.whole_eq.symm
    exact ⟨⟨p.serialized, rfl⟩, .inl ⟨rfl, ⟨hfile ▸ h.height_eq, hfile ▸ h.last_eq, hfile ▸ h.valid⟩,
      hfile.trans (List.append_nil _).symm⟩⟩
  | cons x rest ih =>
    rw [headers]
    rcases hp : p.header lib x with ⟨p', result⟩
    obtain ⟨⟨written, hwritten⟩, hspec⟩ := header_spec h hbits x
    rw [hp] at hwritten hspec
    -- the header is accepted, and so are the others or some of them
    rcases hspec with ⟨rfl, hinv, hbits'⟩ | ⟨rfl, htorn, hnot⟩
    · obtain ⟨⟨written', hwritten'⟩, hrest⟩ := ih hinv hbits'
      refine ⟨⟨written ++ written', ?_⟩, ?_⟩
      · rw [hwritten', hwritten, List.append_assoc]
      · rcases hrest with ⟨hok, haligned, hfile⟩ | ⟨herr, accepted, y, rest', rfl, hvalid, htorn, hnot⟩
        · exact .inl ⟨hok, haligned, by rw [hfile, List.append_assoc, List.singleton_append]⟩
        · rw [List.append_assoc, List.singleton_append] at hvalid htorn
          rw [List.append_assoc whole, List.singleton_append] at hnot
          exact .inr ⟨herr, x :: accepted, y, rest', rfl, hvalid, htorn, hnot⟩
    · -- the header is the first that fails
      refine ⟨⟨written, hwritten⟩, .inr ⟨rfl, [], x, rest, rfl, ?_, ?_, fun hvalid => hnot ?_⟩⟩
      · rw [List.append_nil]
        exact h.valid
      · rwa [List.append_nil]
      · rw [List.append_nil, ValidChain.snoc_iff h.last_eq] at hvalid
        exact hvalid.2

namespace HeadersChain

variable {chain : HeadersChain}

theorem Aligned.inv (h : chain.Aligned lib) :
    Pushing.Inv lib ⟨chain, [], chain.last.bits⟩ chain.file where
  whole_eq := (List.append_nil _).symm
  height_eq := h.height_eq
  last_eq := h.last_eq
  valid := h.valid

/-- `push` succeeds if and only if the file with the new headers is a valid chain, which it then
is. -/
theorem push_iff (h : chain.Aligned lib) (newHeaders : List Header) :
    ((chain.push lib newHeaders).2 = .ok () ↔ ValidChain lib (chain.file ++ newHeaders)) ∧
    ((chain.push lib newHeaders).2 = .ok () → (chain.push lib newHeaders).1.Aligned lib ∧
      (chain.push lib newHeaders).1.file = chain.file ++ newHeaders) := by
  obtain ⟨_, ⟨hok, haligned, hfile⟩ | ⟨herr, accepted, x, rest, rfl, _, _, hnot⟩⟩ :=
    Pushing.headers_spec h.inv rfl newHeaders
  · exact ⟨⟨fun _ => hfile ▸ haligned.valid, fun _ => hok⟩, fun _ => ⟨haligned, hfile⟩⟩
  · have hne : (chain.push lib (accepted ++ x :: rest)).2 ≠ .ok () := by
      rw [push, herr]
      simp
    refine ⟨⟨fun hok => absurd hok hne, fun hvalid => absurd ?_ hnot⟩, fun hok => absurd hok hne⟩
    rw [List.append_cons, ← List.append_assoc, ← List.append_assoc] at hvalid
    exact hvalid.of_append _ (by simp)

end HeadersChain

/-! ### A chain with one block after the first -/

namespace OneBlock

def bytes (b : UInt8) : Bytes32 := .replicate b

def first : Header := ⟨1, bytes 0, bytes 7, 0, 1, 0⟩

def next : Header := ⟨1, bytes 10, bytes 8, 600, 1, 1⟩

/-- The two blocks have different hashes, and any work is enough. -/
def libs : BlockLib where
  blockHash := fun h => if h = first then bytes 10 else bytes 11
  target := fun _ => 1000
  validatePow := fun _ => true
  compactTarget := fun _ => 1
  work := fun _ => 1
  genesis := first
  maxTarget := 1000
  checkpoints := fun _ => none
  sha256d := fun _ => bytes 12

def chain : HeadersChain := ⟨[first], 0, first⟩

theorem aligned : chain.Aligned libs := ⟨rfl, rfl, .genesis⟩

theorem valid : ValidChain libs ([first] ++ [next]) :=
  .snoc .genesis rfl ⟨rfl, rfl, rfl, fun _ h => by cases h⟩

end OneBlock

namespace HeadersChain

variable {chain : HeadersChain}

example : (OneBlock.chain.push OneBlock.libs [OneBlock.next]).2 = .ok () :=
  (push_iff OneBlock.aligned [OneBlock.next]).1.mpr OneBlock.valid

/-- If `push` fails, then what it accepted is in memory, and a part of it in the file. -/
theorem push_fails (h : chain.Aligned lib) {newHeaders : List Header} {f : Failure Error}
    (herr : (chain.push lib newHeaders).2 = .error f) :
    f = .error .invalidHeaders ∧ ∃ whole, ValidChain lib whole ∧
      Torn (chain.push lib newHeaders).1 whole ∧
      ∃ written, (chain.push lib newHeaders).1.file = chain.file ++ written := by
  obtain ⟨hwritten, ⟨hok, _⟩ | ⟨herr', accepted, _, _, _, hvalid, htorn, _⟩⟩ :=
    Pushing.headers_spec h.inv rfl newHeaders
  · rw [push, hok] at herr
    cases herr
  · rw [push, herr'] at herr
    cases herr
    exact ⟨rfl, _, hvalid, htorn, hwritten⟩

/-- Headers can be taken off if and only if the height that is left is in the file, and then file
and memory agree. -/
theorem remove_after {whole : List Header} (hvalid : ValidChain lib whole) (htorn : Torn chain whole)
    (n : ℕ) :
    (chain.height - min n chain.height < chain.file.length ∧ (chain.remove n).2 = .ok () ∧
      (chain.remove n).1.Aligned lib ∧ ∃ k, (chain.remove n).1.file = chain.file.take (k + 1)) ∨
    (chain.file.length ≤ chain.height - min n chain.height ∧
      chain.remove n = (chain, .error (.error .io))) := by
  obtain ⟨rest, hwhole⟩ := htorn.file_eq
  set newHeight := chain.height - min n chain.height with hnew
  -- the file still has the header to go back to
  by_cases hlt : newHeight < chain.file.length
  · have hget : chain.file[newHeight]? = some chain.file[newHeight] := List.getElem?_eq_getElem hlt
    have hremove : chain.remove n =
        (⟨chain.file.take (newHeight + 1), newHeight, chain.file[newHeight]⟩, .ok ()) := by
      simp only [remove, get, ← hnew, hget, okOr]
    have htake : chain.file.take (newHeight + 1) = whole.take (newHeight + 1) := by
      rw [hwhole, List.take_append_of_le_length hlt]
    refine .inl ⟨hlt, by rw [hremove], ?_, newHeight, by rw [hremove]⟩
    rw [hremove]
    constructor
    · rw [List.length_take]
      exact (Nat.min_eq_left hlt).symm
    · rw [List.take_add_one, hget]
      exact List.getLast?_concat
    · exact htake ▸ hvalid.take (Nat.succ_pos _)
  · -- what was written does not reach so far
    refine .inr ⟨Nat.not_lt.mp hlt, ?_⟩
    simp only [remove, get, ← hnew, List.getElem?_eq_none (Nat.not_lt.mp hlt), okOr]

/-- If they cannot be taken off, nothing changes. -/
theorem remove_error {chain' : HeadersChain} {n : ℕ} {f : Failure Error}
    (h : chain.remove n = (chain', .error f)) : chain' = chain := by
  simp only [remove] at h
  split at h
  · exact (Prod.mk.inj h).1.symm
  · cases h

end HeadersChain

end SideSwap.Gdk
