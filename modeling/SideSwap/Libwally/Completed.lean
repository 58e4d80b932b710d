import SideSwap.Libwally.GeneratePsbt
import SideSwap.Libwally.Overflow
import Mathlib.Algebra.BigOperators.Group.List.Basic

/-!
# Completed PSETs

`generatePset` makes the wallet's part of a PSET.  Others complete it: they blind its outputs, and
add inputs and outputs of their own and a fee, at any positions (`Completed`).  `signPsbt` was
written without regard to `generatePset`: it finds the wallet's inputs by their outpoints and its
outputs by unblinding them, and computes the totals anew.

`Completed.found` is what it finds: everything is accepted, and the totals are those of what was
built.
-/

namespace SideSwap.Libwally

open Client Call

/-! ### Hexadecimal -/

theorem hexDecode_append {a b bytes : _} (h : hexDecode a = some bytes) :
    hexDecode (a ++ b) = (hexDecode b).map (bytes ++ ·) := by
  induction a using hexDecode.induct generalizing bytes with
  | case1 =>
    cases h
    cases hb : hexDecode b <;> simp [hb]
  | case2 c => cases h
  | case3 c d rest ih =>
    simp only [hexDecode, Option.bind_eq_bind, Option.bind_eq_some_iff, Option.pure_def,
      Option.some.injEq] at h
    obtain ⟨high, hhigh, low, hlow, tail, htail, rfl⟩ := h
    simp only [List.cons_append, hexDecode, hhigh, hlow, ih htail, Option.bind_eq_bind,
      Option.bind_some, Option.pure_def]
    cases hexDecode b <;> rfl

theorem hexDigit_digitChar : ∀ n < 16, hexDigit (Nat.digitChar n) = some n.toUInt8 := by
  decide

theorem hexDecode_hexEncode (bytes : Bytes) : hexDecode (hexEncode bytes).toList = some bytes := by
  rw [hexEncode, String.toList_ofList]
  induction bytes with
  | nil => rfl
  | cons b bytes ih =>
    have hlt : b.toNat < 256 := b.toNat_lt
    have hhigh := hexDigit_digitChar (b.toNat / 16) (by omega)
    have hlow := hexDigit_digitChar (b.toNat % 16) (by omega)
    have hbyte : 16 * (b.toNat / 16).toUInt8 + (b.toNat % 16).toUInt8 = b := by
      apply UInt8.toNat_inj.mp
      simp
      omega
    rw [List.flatMap_cons, List.cons_append, List.cons_append, List.nil_append, hexDecode, hhigh, hlow,
      ih]
    simp [hbyte]

/-! ### Completed PSETs -/

/-- An output whose commitments open to the asset and the amount that it states. -/
structure Output.Blinded (w : Wally) (o : Output) : Prop where
  script : o.1.script ≠ []
  tagged : o.1.asset.length = assetCtLen
  abf : o.2.abf ≠ []
  vbf : o.2.vbf ≠ []
  opens : o.Opens w

/-- The library does what it is for: it has a blinding key for every script, unblinding succeeds
exactly on the wallet's outputs and returns what they state, amounts are `u64`, and explicit values
are read back. -/
structure Wally.Correct (w : Wally) (lib : Library) (masterKey : Bytes) (mine : Output → Bool) :
    Prop where
  returns : w.Returns
  blindingKey : ∀ script, script ≠ [] → (w.blindingKey masterKey script).isSome = true
  unblinds : ∀ (o : Output) (key : Bytes), mine o = true → o.Blinded w →
    w.blindingKey masterKey o.1.script = some key →
    w.unblindOutput key o = (w.valueToSatoshi o.1.value).map fun amount => (o.asset, amount)
  foreign : ∀ (o : Output) (key : Bytes), mine o = false →
    w.blindingKey masterKey o.1.script = some key → w.unblindOutput key o = none
  amounts : ∀ value amount, w.valueToSatoshi value = some amount → amount < 2 ^ 64
  values : ∀ amount value, lib.valueFromSatoshi amount = some value →
    w.valueToSatoshi value = some amount

/-- The transactions of the wallet are listed under the hashes that the library prints. -/
def WalletCtx.Prints (wallet : WalletCtx) : Prop :=
  ∀ txs, wallet.listTx = some txs → ∀ t ∈ txs, ∃ hash : Bytes, t.txid = hexEncode hash

/-- The input has what was built. -/
def Input.Keeps (i : Input) (b : BuiltInput) : Prop :=
  i.1.txhash = b.txhash ∧ i.1.index = b.index ∧ i.2.asset = b.asset

/-- The output has what was built. -/
def Output.Keeps (o : Output) (b : BuiltOutput) : Prop :=
  o.1.script = b.script ∧ o.1.asset = b.asset ∧ o.1.value = b.value

/-- An honest completion: what was built, once and anywhere, others' inputs and blinded outputs, and
a fee. -/
structure Completed (w : Wally) (mine : Output → Bool) (utxos : List Utxo) (built : BuiltPset)
    (pset : Psbt) : Prop where
  inputLengths : pset.inputs.length = pset.txInputs.length
  outputLengths : pset.outputs.length = pset.txOutputs.length
  sighash : ∀ i ∈ pset.bothInputs, i.2.sighash = 0 ∨ i.2.sighash = sighashAll
  inputs : ∃ own others : List Input, pset.bothInputs.Perm (own ++ others) ∧
    List.Forall₂ Input.Keeps own built.inputs ∧ ∀ i ∈ others, i.utxo utxos = none
  outputs : ∃ (own others : List Output) (fee : Output), pset.bothOutputs.Perm (fee :: own ++ others) ∧
    List.Forall₂ Output.Keeps own built.outputs ∧
    (∀ o ∈ own, mine o = true ∧ o.Blinded w) ∧ (∀ o ∈ others, mine o = false ∧ o.Blinded w) ∧
    fee.1.asset.length = assetCtLen ∧ fee.PaysFee w

/-! ### Outputs -/

section Outputs

variable {w : Wally} {lib : Library} {masterKey send recv : Bytes} {mine : Output → Bool}
  {o : Output} {amount : ℕ}

theorem Output.Blinded.checked (hw : w.Correct lib masterKey mine) (h : o.Blinded w)
    (hvalue : w.valueToSatoshi o.1.value = some amount)
    (howned : mine o = true → o.asset = recv ∨ o.asset = send) :
    o.Checked w masterKey send recv amount := by
  obtain ⟨value, hopened, hasset, hcommitment⟩ := h.opens
  rw [hvalue] at hopened
  cases hopened
  refine ⟨hw.blindingKey _ h.script, fun key found hkey hfound => ?_, h.abf, h.vbf, hasset,
    hcommitment⟩
  cases hmine : mine o with
  | false =>
    rw [hw.foreign o key hmine hkey] at hfound
    cases hfound
  | true =>
    rw [hw.unblinds o key hmine h hkey, hvalue] at hfound
    cases hfound
    exact ⟨rfl, howned hmine⟩

/-- An output of the wallet is accepted and counted in one of the totals. -/
theorem own_output (hw : w.Correct lib masterKey mine) (hmine : mine o = true) (h : o.Blinded w)
    (hvalue : w.valueToSatoshi o.1.value = some amount) {total : Total}
    (htotal : ownedTotal send recv o.asset = some total) :
    o.Accepted w masterKey send recv ∧ o.share w masterKey send recv = some (total, amount) := by
  have howned : o.asset = recv ∨ o.asset = send := exists_ownedTotal.mp ⟨total, htotal⟩
  refine ⟨⟨h.tagged, amount, hvalue, fun _ => h.checked hw hvalue fun _ => howned⟩, ?_⟩
  obtain ⟨key, hkey⟩ := Option.isSome_iff_exists.mp (hw.blindingKey _ h.script)
  rw [share_of_script h.tagged hvalue h.script hkey, Output.ownedShare, hw.unblinds o key hmine h hkey,
    hvalue]
  simp [htotal]

/-- An output of someone else is accepted and not counted. -/
theorem other_output (hw : w.Correct lib masterKey mine) (hmine : mine o = false) (h : o.Blinded w) :
    o.Accepted w masterKey send recv ∧ o.share w masterKey send recv = none := by
  obtain ⟨amount, hvalue, -⟩ := h.opens
  have hchecked : o.Checked w masterKey send recv amount :=
    h.checked hw hvalue fun hm => by rw [hmine] at hm; cases hm
  refine ⟨⟨h.tagged, amount, hvalue, fun _ => hchecked⟩, ?_⟩
  obtain ⟨key, hkey⟩ := Option.isSome_iff_exists.mp (hw.blindingKey _ h.script)
  rw [share_of_script h.tagged hvalue h.script hkey, Output.ownedShare, hw.foreign o key hmine hkey]

theorem fee_output (hvalue : w.valueToSatoshi o.1.value = some amount) (hscript : o.1.script = [])
    (hlen : o.1.asset.length = assetCtLen) :
    o.Accepted w masterKey send recv ∧ o.share w masterKey send recv = some (.fee, amount) :=
  ⟨⟨hlen, amount, hvalue, fun hne => absurd hscript hne⟩, share_of_fee hlen hvalue hscript⟩

/-- What is built for a planned output states its asset and amount. -/
theorem Output.Keeps.states {wallet : WalletCtx} {p : NewOutput} {b : BuiltOutput} {asset : Bytes}
    (hw : w.Correct lib masterKey mine) (hkeeps : o.Keeps b)
    (hbuilt : buildOutput lib wallet p = .ok b)
    (hasset : assetBytes p.asset = some asset) :
    o.asset = asset ∧ w.valueToSatoshi o.1.value = some (asU64 p.amount) := by
  obtain ⟨-, hkept, hvalue⟩ := hkeeps
  obtain ⟨hdecode, hbytes⟩ := buildOutput_eq_ok hbuilt
  constructor
  · obtain ⟨bytes, hbytes, rfl⟩ := Option.map_eq_some_iff.mp hasset
    have htag : hexDecode "01".toList = some [1] := by decide
    rw [String.toList_append, hexDecode_append hbytes, htag, Option.map_some,
      Option.some.injEq] at hdecode
    rw [Output.asset, hkept, ← List.reverse_reverse b.asset, ← hdecode, List.reverse_append]
    rfl
  · rw [hvalue]
    exact hw.values _ _ hbytes

end Outputs

/-! ### Inputs -/

section Inputs

variable {lib : Library} {wallet : WalletCtx} {psbtInfo : PsbtInfo} {txs : List TxMeta}
  {utxos : List Utxo} {send : Bytes}

/-- The output that a coin is. -/
def outpoint (utxo : Utxo) : String × ℕ := (utxo.txhash, utxo.ptIdx)

/-- An input is found again by its outpoint. -/
theorem utxo_of_keeps (hprints : ∀ t ∈ txs, ∃ hash : Bytes, t.txid = hexEncode hash)
    (hnodup : (utxos.map outpoint).Nodup) {utxo : Utxo} (hutxo : utxo ∈ utxos) {b : BuiltInput}
    (hbuilt : buildInput lib wallet psbtInfo txs utxo = .ok b) {i : Input} (hkeeps : i.Keeps b) :
    i.utxo utxos = some utxo := by
  obtain ⟨t, ht, hid, hdecode, hindex, -⟩ := buildInput_eq_ok hbuilt
  obtain ⟨hash, hprinted⟩ := hprints t ht
  obtain ⟨hkept, hkeptIndex, -⟩ := hkeeps
  rw [hprinted, hexDecode_hexEncode, Option.some.injEq] at hdecode
  have hhash : hexEncode i.1.txhash.reverse = utxo.txhash := by
    rw [hkept, ← hdecode, ← hprinted, hid]
  have hmatch : utxo.txhash = hexEncode i.1.txhash.reverse ∧ utxo.ptIdx = i.1.index :=
    ⟨hhash.symm, by rw [hkeptIndex, hindex]⟩
  unfold Input.utxo
  cases hfind : utxos.find? fun u =>
      decide (u.txhash = hexEncode i.1.txhash.reverse ∧ u.ptIdx = i.1.index) with
  | none =>
    have hno := List.find?_eq_none.mp hfind utxo hutxo
    simp [hmatch] at hno
  | some other =>
    have hother : other.txhash = hexEncode i.1.txhash.reverse ∧ other.ptIdx = i.1.index := by
      simpa using List.find?_some hfind
    have hsame : outpoint other = outpoint utxo := by
      rw [outpoint, outpoint, hother.1, hother.2, hmatch.1, hmatch.2]
    rw [List.inj_on_of_nodup_map hnodup (List.mem_of_find?_eq_some hfind) hutxo hsame]

/-- The wallet's inputs hold the asset sent, and spend its utxos. -/
theorem own_inputs (hprints : ∀ t ∈ txs, ∃ hash : Bytes, t.txid = hexEncode hash)
    (hnodup : (utxos.map outpoint).Nodup) (hsend : assetBytes psbtInfo.sendAsset = some send)
    {l : List Utxo} (hl : ∀ u ∈ l, u ∈ utxos) {own : List Input} {built : List BuiltInput}
    (hbuilt : List.Forall₂ (fun u b => buildInput lib wallet psbtInfo txs u = .ok b) l built)
    (hkeeps : List.Forall₂ Input.Keeps own built) :
    (∀ i ∈ own, i.2.asset = send) ∧ spentAmount utxos own = (l.map Utxo.satoshi).sum := by
  induction hbuilt generalizing own with
  | nil =>
    cases hkeeps
    exact ⟨fun _ hi => (List.not_mem_nil hi).elim, rfl⟩
  | @cons utxo b l built hb hrest ih =>
    cases hkeeps with
    | @cons i _ own _ hi hown =>
      rw [List.forall_mem_cons] at hl
      obtain ⟨hassets, hspent⟩ := ih hl.2 hown
      have hutxo := utxo_of_keeps hprints hnodup hl.1 hb hi
      obtain ⟨_, -, -, -, -, hasset⟩ := buildInput_eq_ok hb
      rw [hsend, Option.some.injEq] at hasset
      constructor
      · refine List.forall_mem_cons.mpr ⟨?_, hassets⟩
        rw [hi.2.2, ← hasset]
      · show (i.satoshi utxos + spentAmount utxos own) = utxo.satoshi + (l.map Utxo.satoshi).sum
        rw [hspent, Input.satoshi, hutxo]

/-- Others' inputs take nothing from the wallet. -/
theorem spentAmount_others {others : List Input} (h : ∀ i ∈ others, i.utxo utxos = none) :
    spentAmount utxos others = 0 := by
  apply List.sum_eq_zero
  intro n hn
  obtain ⟨i, hi, rfl⟩ := List.mem_map.mp hn
  rw [Input.satoshi, h i hi]

end Inputs

/-! ### Totals -/

section Totals

variable {w : Wally} {masterKey send recv : Bytes} {utxos : List Utxo} {total : Total}

theorem shares_perm {l l' : List Output} (h : l.Perm l') :
    shares w masterKey send recv total l = shares w masterKey send recv total l' :=
  (h.map _).sum_eq

theorem shares_cons (o : Output) (l : List Output) :
    shares w masterKey send recv total (o :: l) = (match o.share w masterKey send recv with
      | some (other, amount) => if other = total then amount else 0
      | none => 0) + shares w masterKey send recv total l := rfl

theorem shares_cons_some {o : Output} {other : Total} {amount : ℕ}
    (hshare : o.share w masterKey send recv = some (other, amount)) (l : List Output) :
    shares w masterKey send recv total (o :: l) =
      (if other = total then amount else 0) + shares w masterKey send recv total l := by
  rw [shares_cons, hshare]

@[simp] theorem shares_nil : shares w masterKey send recv total [] = 0 := rfl

theorem shares_append (l l' : List Output) : shares w masterKey send recv total (l ++ l') =
    shares w masterKey send recv total l + shares w masterKey send recv total l' := by
  rw [shares, List.map_append, List.sum_append]
  rfl

theorem shares_others {l : List Output} (h : ∀ o ∈ l, o.share w masterKey send recv = none) :
    shares w masterKey send recv total l = 0 := by
  apply List.sum_eq_zero
  intro n hn
  obtain ⟨o, ho, rfl⟩ := List.mem_map.mp hn
  rw [h o ho]

/-- Outputs fit if all of them together do. -/
theorem outputsFit_of_shares {outputs : List Output}
    (h : ∀ total, shares w masterKey send recv total outputs < 2 ^ 64) :
    OutputsFit w masterKey send recv outputs := by
  intro done o rest houtputs _ total amount hshare
  have hsum := h total
  rw [houtputs, shares_append, shares_cons_some hshare, if_pos rfl] at hsum
  omega

theorem inputsFit_of_spent {inputs : List Input} (h : spentAmount utxos inputs < 2 ^ 64) :
    InputsFit utxos send inputs := by
  intro done i rest hinputs _ utxo hutxo _
  have hi : i.satoshi utxos = utxo.satoshi := by rw [Input.satoshi, hutxo]
  rw [hinputs, spentAmount, List.map_append, List.map_cons, List.sum_append, List.sum_cons, hi] at h
  have hdone : spentAmount utxos done = (done.map (Input.satoshi utxos)).sum := rfl
  omega

end Totals

/-! ### The change -/

section Change

variable {psbtInfo : PsbtInfo} {utxos : List Utxo}

/-- The change that is left over fits into an `i64`. -/
def ChangeFits (psbtInfo : PsbtInfo) (utxos : List Utxo) : Prop :=
  ((utxos.map Utxo.satoshi).sum : ℤ) - psbtInfo.sendAmount < 2 ^ 63

instance : Decidable (ChangeFits psbtInfo utxos) := inferInstanceAs (Decidable (_ < _))

theorem changeAmount_eq (hsend : IsI64 psbtInfo.sendAmount) (hpos : 0 < psbtInfo.sendAmount)
    (hle : psbtInfo.sendAmount ≤ (utxos.map Utxo.satoshi).sum)
    (hsum : (utxos.map Utxo.satoshi).sum < 2 ^ 64) :
    changeAmount psbtInfo utxos =
      if ChangeFits psbtInfo utxos then (utxos.map Utxo.satoshi).sum - psbtInfo.sendAmount
      else (utxos.map Utxo.satoshi).sum - psbtInfo.sendAmount - 2 ^ 64 := by
  have hwrap : changeAmount psbtInfo utxos =
      wrap ((utxos.map Utxo.satoshi).sum - psbtInfo.sendAmount) := by
    rw [changeAmount, inputAmount, Nat.mod_eq_of_lt hsum]
    exact Int.bmod_sub_bmod
  rw [hwrap]
  by_cases hfits : ChangeFits psbtInfo utxos
  · rw [if_pos hfits]
    unfold ChangeFits at hfits
    refine wrap_of_isI64 ⟨?_, hfits⟩
    omega
  · rw [if_neg hfits]
    unfold ChangeFits at hfits
    unfold IsI64 at hsend
    have hrange : IsI64 ((utxos.map Utxo.satoshi).sum - psbtInfo.sendAmount - 2 ^ 64) := by
      unfold IsI64
      omega
    exact (Int.sub_bmod_right _ (2 ^ 64)).symm.trans (wrap_of_isI64 hrange)

end Change

/-! ### Completed PSETs are signed -/

section Signing

variable {lib : Library} {wallet : WalletCtx} {w : Wally} {masterKey send recv : Bytes}
  {mine : Output → Bool} {psbtInfo : PsbtInfo} {utxos : List Utxo} {built : BuiltPset} {pset : Psbt}

theorem generatePset_eq_ok (h : generatePset lib wallet psbtInfo utxos = .ok built) :
    ∃ txs planned, wallet.listTx = some txs ∧ planOutputs wallet psbtInfo utxos = .ok planned ∧
      List.Forall₂ (fun u b => buildInput lib wallet psbtInfo txs u = .ok b) utxos built.inputs ∧
      List.Forall₂ (fun p b => buildOutput lib wallet p = .ok b) planned built.outputs := by
  simp only [generatePset, bind_eq_ok, unwrap_eq_ok, pure_eq_ok] at h
  obtain ⟨txs, htxs, planned, hplanned, inputs, hinputs, outputs, houtputs, rfl⟩ := h
  exact ⟨txs, planned, htxs, hplanned, mapM_eq_ok hinputs, mapM_eq_ok houtputs⟩

/-- The output received, and one for the change if it is positive. -/
theorem planOutputs_eq_ok (hrecv : 0 < psbtInfo.recvAmount) {planned : List NewOutput}
    (h : planOutputs wallet psbtInfo utxos = .ok planned) :
    ∃ pointer, (0 < changeAmount psbtInfo utxos ∧ ∃ other, planned =
        [⟨pointer, psbtInfo.recvAmount, psbtInfo.recvAsset⟩,
          ⟨other, changeAmount psbtInfo utxos, psbtInfo.sendAsset⟩]) ∨
      (changeAmount psbtInfo utxos ≤ 0 ∧
        planned = [⟨pointer, psbtInfo.recvAmount, psbtInfo.recvAsset⟩]) := by
  simp only [planOutputs, bind_eq_ok, pure_eq_ok] at h
  obtain ⟨first, hfirst, second, hsecond, rfl⟩ := h
  rcases planOutput_eq_ok hfirst with ⟨-, pointer, rfl⟩ | ⟨hneg, -⟩
  · refine ⟨pointer, ?_⟩
    rcases planOutput_eq_ok hsecond with ⟨hpos, other, rfl⟩ | ⟨hneg, rfl⟩
    · exact .inl ⟨hpos, other, rfl⟩
    · exact .inr ⟨hneg, rfl⟩
  · omega

/-- The wallet's outputs of a completed PSET are accepted; they hold what is received and the change
that was built. -/
theorem own_outputs (hw : w.Correct lib masterKey mine)
    (hsend : assetBytes psbtInfo.sendAsset = some send)
    (hrecv : assetBytes psbtInfo.recvAsset = some recv) (differ : send ≠ recv)
    (hpos : 0 < psbtInfo.recvAmount) {planned : List NewOutput}
    (hplanned : planOutputs wallet psbtInfo utxos = .ok planned) {outputs : List BuiltOutput}
    (hbuilt : List.Forall₂ (fun p b => buildOutput lib wallet p = .ok b) planned outputs)
    {own : List Output} (hkeeps : List.Forall₂ Output.Keeps own outputs)
    (hown : ∀ o ∈ own, mine o = true ∧ o.Blinded w) :
    (∀ o ∈ own, o.Accepted w masterKey send recv) ∧
      shares w masterKey send recv .fee own = 0 ∧
      shares w masterKey send recv .recv own = asU64 psbtInfo.recvAmount ∧
      shares w masterKey send recv .change own =
        if 0 < changeAmount psbtInfo utxos then asU64 (changeAmount psbtInfo utxos) else 0 := by
  have hrecvTotal : ownedTotal send recv recv = some .recv := if_pos rfl
  have hsendTotal : ownedTotal send recv send = some .change := by
    rw [ownedTotal, if_neg differ, if_pos rfl]
  -- what the wallet finds in an output that was built for a planned one
  have houtput : ∀ {p : NewOutput} {b : BuiltOutput} {o : Output} {asset : Bytes} {total : Total},
      buildOutput lib wallet p = .ok b → o.Keeps b → mine o = true ∧ o.Blinded w →
      assetBytes p.asset = some asset → ownedTotal send recv asset = some total →
      o.Accepted w masterKey send recv ∧
        o.share w masterKey send recv = some (total, asU64 p.amount) := by
    intro p b o asset total hb hk ho hasset htotal
    obtain ⟨hstates, hvalue⟩ := hk.states hw hb hasset
    exact own_output hw ho.1 ho.2 hvalue (by rw [hstates]; exact htotal)
  obtain ⟨pointer, ⟨hchange, other, rfl⟩ | ⟨hchange, rfl⟩⟩ := planOutputs_eq_ok hpos hplanned
  · -- what is received, and the change
    obtain ⟨b₁, _, hb₁, hbuilt₁, rfl⟩ := List.forall₂_cons_left_iff.mp hbuilt
    obtain ⟨b₂, _, hb₂, hbuilt₂, rfl⟩ := List.forall₂_cons_left_iff.mp hbuilt₁
    obtain rfl := List.forall₂_nil_left_iff.mp hbuilt₂
    obtain ⟨o₁, _, hk₁, hkeeps₁, rfl⟩ := List.forall₂_cons_right_iff.mp hkeeps
    obtain ⟨o₂, _, hk₂, hkeeps₂, rfl⟩ := List.forall₂_cons_right_iff.mp hkeeps₁
    obtain rfl := List.forall₂_nil_right_iff.mp hkeeps₂
    simp only [List.forall_mem_cons] at hown ⊢
    obtain ⟨haccept₁, hshare₁⟩ := houtput hb₁ hk₁ hown.1 hrecv hrecvTotal
    obtain ⟨haccept₂, hshare₂⟩ := houtput hb₂ hk₂ hown.2.1 hsend hsendTotal
    rw [if_pos hchange]
    refine ⟨⟨haccept₁, haccept₂, List.forall_mem_nil _⟩, ?_, ?_, ?_⟩
    · simp [shares_cons_some hshare₁, shares_cons_some hshare₂]
    · simp [shares_cons_some hshare₁, shares_cons_some hshare₂]
    · simp [shares_cons_some hshare₁, shares_cons_some hshare₂]
  · -- there is no change
    obtain ⟨b, _, hb, hbuilt₁, rfl⟩ := List.forall₂_cons_left_iff.mp hbuilt
    obtain rfl := List.forall₂_nil_left_iff.mp hbuilt₁
    obtain ⟨o, _, hk, hkeeps₁, rfl⟩ := List.forall₂_cons_right_iff.mp hkeeps
    obtain rfl := List.forall₂_nil_right_iff.mp hkeeps₁
    simp only [List.forall_mem_cons] at hown ⊢
    obtain ⟨haccept, hshare⟩ := houtput hb hk hown.1 hrecv hrecvTotal
    rw [if_neg (not_lt.mpr hchange)]
    refine ⟨⟨haccept, List.forall_mem_nil _⟩, ?_, ?_, ?_⟩
    · simp [shares_cons_some hshare]
    · simp [shares_cons_some hshare]
    · simp [shares_cons_some hshare]

/-- What the wallet finds in a completed PSET: everything is accepted, and the totals are those of
what was built. -/
structure Found (w : Wally) (masterKey send recv : Bytes) (psbtInfo : PsbtInfo) (utxos : List Utxo)
    (pset : Psbt) : Prop where
  outputs : ∀ o ∈ pset.bothOutputs, o.Accepted w masterKey send recv
  inputs : ∀ i ∈ pset.bothInputs, i.Accepted utxos send
  fee : shares w masterKey send recv .fee pset.bothOutputs ≠ 0
  feeFits : shares w masterKey send recv .fee pset.bothOutputs < 2 ^ 64
  received : shares w masterKey send recv .recv pset.bothOutputs = asU64 psbtInfo.recvAmount
  change : shares w masterKey send recv .change pset.bothOutputs =
    if 0 < changeAmount psbtInfo utxos then asU64 (changeAmount psbtInfo utxos) else 0
  spent : spentAmount utxos pset.bothInputs = (utxos.map Utxo.satoshi).sum

theorem Completed.found (hw : w.Correct lib masterKey mine) (hprints : wallet.Prints)
    (hsend : assetBytes psbtInfo.sendAsset = some send)
    (hrecv : assetBytes psbtInfo.recvAsset = some recv) (differ : send ≠ recv)
    (hpos : 0 < psbtInfo.recvAmount) (hnodup : (utxos.map outpoint).Nodup)
    (hbuilt : generatePset lib wallet psbtInfo utxos = .ok built)
    (h : Completed w mine utxos built pset) : Found w masterKey send recv psbtInfo utxos pset := by
  obtain ⟨txs, planned, htxs, hplanned, hbuiltInputs, hbuiltOutputs⟩ := generatePset_eq_ok hbuilt
  obtain ⟨own, others, hperm, hkeeps, hothers⟩ := h.inputs
  obtain ⟨hassets, hspent⟩ :=
    own_inputs (hprints txs htxs) hnodup hsend (fun _ hu => hu) hbuiltInputs hkeeps
  obtain ⟨ownOut, othersOut, fee, hpermOut, hkeepsOut, hown, hothersOut, hfeeLen, hfeeScript, amount,
    hfeeValue, hfeePos⟩ := h.outputs
  obtain ⟨haccepted, hownFee, hownRecv, hownChange⟩ :=
    own_outputs hw hsend hrecv differ hpos hplanned hbuiltOutputs hkeepsOut hown
  have hother : ∀ o ∈ othersOut,
      o.Accepted w masterKey send recv ∧ o.share w masterKey send recv = none :=
    fun o ho => other_output hw (hothersOut o ho).1 (hothersOut o ho).2
  obtain ⟨hfeeAccepted, hfeeShare⟩ :
      fee.Accepted w masterKey send recv ∧ fee.share w masterKey send recv = some (.fee, amount) :=
    fee_output hfeeValue hfeeScript hfeeLen
  -- only the fee and the own outputs count in the totals
  have hshares : ∀ total, shares w masterKey send recv total pset.bothOutputs =
      (if Total.fee = total then amount else 0) + shares w masterKey send recv total ownOut := by
    intro total
    rw [shares_perm hpermOut, List.cons_append, shares_cons_some hfeeShare, shares_append,
      shares_others fun o ho => (hother o ho).2, Nat.add_zero]
  refine ⟨fun o ho => ?_, fun i hi => ⟨h.sighash i hi, fun hsome => ?_⟩, ?_, ?_, ?_, ?_, ?_⟩
  · rw [hpermOut.mem_iff, List.cons_append, List.mem_cons, List.mem_append] at ho
    rcases ho with rfl | ho | ho
    · exact hfeeAccepted
    · exact haccepted o ho
    · exact (hother o ho).1
  · rw [hperm.mem_iff, List.mem_append] at hi
    rcases hi with hi | hi
    · exact hassets i hi
    · rw [hothers i hi] at hsome
      cases hsome
  · rw [hshares, if_pos rfl, hownFee, Nat.add_zero]
    exact hfeePos.ne'
  · rw [hshares, if_pos rfl, hownFee, Nat.add_zero]
    exact hw.amounts _ _ hfeeValue
  · rw [hshares, if_neg (by decide), hownRecv, Nat.zero_add]
  · rw [hshares, if_neg (by decide), hownChange, Nat.zero_add]
  · show ((pset.bothInputs.map (Input.satoshi utxos)).sum) = _
    rw [(hperm.map _).sum_eq, List.map_append, List.sum_append]
    show spentAmount utxos own + spentAmount utxos others = _
    rw [hspent, spentAmount_others hothers, Nat.add_zero]

end Signing

end SideSwap.Libwally
