import SideSwap.Libwally.Rounds
import SideSwap.Libwally.ValueExact

/-!
# Amounts that do not fit

The amounts of a PSET come from the server and the counterparty.  `signPsbt` adds them up with
`checked_add(..).unwrap()`, or without a check.

`signPsbt_defends_iff` shows exactly when `signPsbt` returns or fails with an error and no sum on
the way overflows: the asset identifiers and the text can be decoded, and among the outputs and
inputs that are checked before the first one is rejected, no total reaches 2⁶⁴ (`OutputsFit`,
`InputsFit`).  `signPsbt_panics` has a PSET for which it panics.
-/

namespace SideSwap.Libwally

open Client Call

section

variable (w : Wally) (masterBlinding : Option Bytes) (psbtInfo : PsbtInfo) (utxos : List Utxo)
  (psbt : String)

/-- What `signPsbt` has when its loops begin. -/
structure Opened (masterKey send recv : Bytes) (pset : Psbt) : Prop where
  blindingKey : masterBlinding = some masterKey
  sendAsset : assetBytes psbtInfo.sendAsset = some send
  recvAsset : assetBytes psbtInfo.recvAsset = some recv
  text : '\x00' ∉ psbt.toList
  decoded : w.psbtFromBase64 psbt = some pset
  inputs : pset.inputs.length = pset.txInputs.length
  outputs : pset.outputs.length = pset.txOutputs.length

/-- `signPsbt` returns or fails with an error, and every addition that it gets to fits into 64
bits. -/
structure Defends : Prop where
  returns : signPsbt w masterBlinding psbtInfo utxos psbt ≠ .error .panic
  outputs : ∀ {masterKey send recv : Bytes} {pset : Psbt},
    Opened w masterBlinding psbtInfo psbt masterKey send recv pset →
    HasRoom (checkOutput w masterKey send recv) (fun t o => t.Room (o.share w masterKey send recv))
      ⟨0, 0, 0⟩ pset.bothOutputs
  inputs : ∀ {masterKey send recv : Bytes} {pset : Psbt} {totals : Totals},
    Opened w masterBlinding psbtInfo psbt masterKey send recv pset →
    checkOutputs w masterKey send recv pset.bothOutputs = .ok totals → totals.fee ≠ 0 →
    HasRoom (checkInput w pset utxos send) (Spent.Room utxos send) ⟨0, []⟩ pset.bothInputs.zipIdx

/-- No output takes a total to 2⁶⁴ after accepted ones. -/
def OutputsFit (masterKey send recv : Bytes) (outputs : List Output) : Prop :=
  ∀ done o rest, outputs = done ++ o :: rest → (∀ p ∈ done, p.Accepted w masterKey send recv) →
    ∀ total amount, o.share w masterKey send recv = some (total, amount) →
      shares w masterKey send recv total done + amount < 2 ^ 64

/-- No input takes the total to 2⁶⁴ after accepted ones. -/
def InputsFit (send : Bytes) (inputs : List Input) : Prop :=
  ∀ done i rest, inputs = done ++ i :: rest → (∀ j ∈ done, j.Accepted utxos send) →
    ∀ utxo, i.utxo utxos = some utxo → i.Accepted utxos send →
      spentAmount utxos done + utxo.satoshi < 2 ^ 64

/-- The condition on the arguments of `signPsbt`. -/
structure Fits : Prop where
  key : masterBlinding.isSome = true
  send : (assetBytes psbtInfo.sendAsset).isSome = true
  recv : (assetBytes psbtInfo.recvAsset).isSome = true
  text : '\x00' ∉ psbt.toList
  outputs : ∀ {masterKey send recv : Bytes} {pset : Psbt},
    Opened w masterBlinding psbtInfo psbt masterKey send recv pset →
    OutputsFit w masterKey send recv pset.bothOutputs
  inputs : ∀ {masterKey send recv : Bytes} {pset : Psbt},
    Opened w masterBlinding psbtInfo psbt masterKey send recv pset →
    (∀ o ∈ pset.bothOutputs, o.Accepted w masterKey send recv) →
    shares w masterKey send recv .fee pset.bothOutputs ≠ 0 → InputsFit utxos send pset.bothInputs

end

variable {w : Wally} {masterBlinding : Option Bytes} {psbtInfo : PsbtInfo} {utxos : List Utxo}
  {psbt : String} {masterKey send recv : Bytes} {pset : Psbt}

/-! ### The loops -/

theorem outputsFit_iff (outputs : List Output) :
    HasRoom (checkOutput w masterKey send recv) (fun t o => t.Room (o.share w masterKey send recv))
      ⟨0, 0, 0⟩ outputs ↔ OutputsFit w masterKey send recv outputs := by
  have hget : ∀ (done : List Output) total, (done.foldl
      (fun (t : Totals) (o : Output) => t.add (o.share w masterKey send recv)) ⟨0, 0, 0⟩).get total =
        shares w masterKey send recv total done := by
    intro done total
    rw [get_foldl_add]
    cases total <;> exact Nat.zero_add _
  rw [hasRoom_iff outputRounds]
  simp only [Totals.Room, hget]
  rfl

theorem foldl_add_amount (inputs : List (Input × ℕ)) (s : Spent) :
    (inputs.foldl (Spent.add w pset utxos) s).amount =
      s.amount + spentAmount utxos (inputs.map Prod.fst) := by
  induction inputs generalizing s with
  | nil => simp [spentAmount]
  | cons i inputs ih =>
    have hstep : (s.add w pset utxos i).amount = s.amount + i.1.satoshi utxos := by
      unfold Spent.add Input.satoshi
      cases i.1.utxo utxos <;> rfl
    rw [List.foldl_cons, ih, hstep, Nat.add_assoc]
    rfl

theorem inputsFit_iff (hw : w.Returns) (inputs : List Input) :
    HasRoom (checkInput w pset utxos send) (Spent.Room utxos send) ⟨0, []⟩ inputs.zipIdx ↔
      InputsFit utxos send inputs := by
  rw [hasRoom_iff (inputRounds hw)]
  -- the sum so far is that of the inputs done
  have hamount : ∀ done : List (Input × ℕ), (done.foldl (Spent.add w pset utxos) ⟨0, []⟩).amount =
      spentAmount utxos (done.map Prod.fst) := by
    intro done
    rw [foldl_add_amount]
    exact Nat.zero_add _
  -- the places of the list with indexes are those of the list
  simp only [Spent.Room, hamount]
  constructor
  · intro hroom done i rest hinputs hdone utxo hutxo haccepted
    have hzip : inputs.zipIdx = done.zipIdx ++ (i, done.length) :: rest.zipIdx (done.length + 1) := by
      rw [hinputs, List.zipIdx_append, List.zipIdx_cons, Nat.zero_add]
    have hfst : done.zipIdx.map Prod.fst = done := List.zipIdx_map_fst 0 done
    rw [← hfst]
    refine hroom _ _ _ hzip (fun j hj => hdone j.1 ?_) utxo hutxo haccepted
    rw [← hfst]
    exact List.mem_map_of_mem hj
  · intro hfits done i rest hzip hdone utxo hutxo haccepted
    have hinputs : inputs = done.map Prod.fst ++ i.1 :: rest.map Prod.fst := by
      rw [← List.zipIdx_map_fst 0 inputs, hzip, List.map_append, List.map_cons]
    refine hfits _ _ _ hinputs (fun j hj => ?_) utxo hutxo haccepted
    obtain ⟨pair, hpair, rfl⟩ := List.mem_map.mp hj
    exact hdone pair hpair

/-! ### The whole -/

theorem unwrap_text (htext : '\x00' ∉ psbt.toList) :
    (unwrap (if '\x00' ∈ psbt.toList then none else some psbt) : Call String String) = .ok psbt := by
  rw [if_neg htext]
  rfl

theorem ensure_of {c : Prop} [Decidable c] (hc : c) (e : String) : ensure (decide c) e = .ok () :=
  ensure_eq_ok.mpr (decide_eq_true hc)

theorem ensure_of_not {c : Prop} [Decidable c] (hc : ¬ c) (e : String) :
    ensure (decide c) e = .error (.error e) :=
  ensure_eq_error.mpr ⟨decide_eq_false hc, rfl⟩

theorem signPsbt_of_opened (h : Opened w masterBlinding psbtInfo psbt masterKey send recv pset) :
    signPsbt w masterBlinding psbtInfo utxos psbt = (do
      let totals ← checkOutputs w masterKey send recv pset.bothOutputs
      ensure (totals.fee ≠ 0) "Condition failed: `fee_amount != 0`"
      let spent ← checkInputs w pset utxos send pset.bothInputs
      ensure (spent.amount > totals.change) "Condition failed: `input_amount > change_amount`"
      let sendAmount := spent.amount - totals.change
      ensure (sendAmount = asU64 psbtInfo.sendAmount)
        "Condition failed: `send_amount == psbt_info.send_amount as u64`"
      ensure (totals.recv = asU64 psbtInfo.recvAmount)
        "Condition failed: `recv_amount == psbt_info.recv_amount as u64`"
      unwrap (w.finish psbt utxos spent.witnesses)) := by
  rw [signPsbt, bind_of_ok (unwrap_eq_ok.mpr h.blindingKey), bind_of_ok (unwrap_eq_ok.mpr h.sendAsset),
    bind_of_ok (unwrap_eq_ok.mpr h.recvAsset), bind_of_ok (unwrap_text h.text),
    bind_of_ok (okOr_eq_ok.mpr h.decoded), bind_of_ok (ensure_of h.inputs _),
    bind_of_ok (ensure_of h.outputs _)]

/-- What happens before the loops: a panic, an error, or they begin. -/
theorem signPsbt_opens (hkey : masterBlinding.isSome = true)
    (hsend : (assetBytes psbtInfo.sendAsset).isSome = true)
    (hrecv : (assetBytes psbtInfo.recvAsset).isSome = true) (htext : '\x00' ∉ psbt.toList) :
    (∃ e, signPsbt w masterBlinding psbtInfo utxos psbt = .error (.error e)) ∨
      ∃ masterKey send recv pset, Opened w masterBlinding psbtInfo psbt masterKey send recv pset := by
  obtain ⟨masterKey, hkey⟩ := Option.isSome_iff_exists.mp hkey
  obtain ⟨send, hsend⟩ := Option.isSome_iff_exists.mp hsend
  obtain ⟨recv, hrecv⟩ := Option.isSome_iff_exists.mp hrecv
  rw [signPsbt, bind_of_ok (unwrap_eq_ok.mpr hkey), bind_of_ok (unwrap_eq_ok.mpr hsend),
    bind_of_ok (unwrap_eq_ok.mpr hrecv), bind_of_ok (unwrap_text htext)]
  cases hpset : w.psbtFromBase64 psbt with
  | none => exact .inl ⟨_, rfl⟩
  | some pset =>
    rw [bind_of_ok (okOr_eq_ok.mpr rfl)]
    by_cases hinputs : pset.inputs.length = pset.txInputs.length
    · rw [bind_of_ok (ensure_of hinputs _)]
      by_cases houtputs : pset.outputs.length = pset.txOutputs.length
      · exact .inr ⟨masterKey, send, recv, pset, hkey, hsend, hrecv, htext, hpset, hinputs, houtputs⟩
      · exact .inl ⟨_, bind_of_error (ensure_of_not houtputs _)⟩
    · exact .inl ⟨_, bind_of_error (ensure_of_not hinputs _)⟩

/-- Without the key, the asset identifiers or the text, `signPsbt` panics. -/
theorem signPsbt_decodes (h : signPsbt w masterBlinding psbtInfo utxos psbt ≠ .error .panic) :
    masterBlinding.isSome = true ∧ (assetBytes psbtInfo.sendAsset).isSome = true ∧
      (assetBytes psbtInfo.recvAsset).isSome = true ∧ '\x00' ∉ psbt.toList := by
  have hpanic : ∀ {α : Type} {a : Option α}, a = none → (unwrap a : Call String α) = .error .panic :=
    fun ha => unwrap_eq_error.mpr ⟨ha, rfl⟩
  unfold signPsbt at h
  cases hkey : masterBlinding with
  | none => exact absurd (bind_of_error (hpanic hkey)) h
  | some masterKey =>
    rw [bind_of_ok (unwrap_eq_ok.mpr hkey)] at h
    cases hsend : assetBytes psbtInfo.sendAsset with
    | none => exact absurd (bind_of_error (hpanic hsend)) h
    | some send =>
      rw [bind_of_ok (unwrap_eq_ok.mpr hsend)] at h
      cases hrecv : assetBytes psbtInfo.recvAsset with
      | none => exact absurd (bind_of_error (hpanic hrecv)) h
      | some recv =>
        rw [bind_of_ok (unwrap_eq_ok.mpr hrecv)] at h
        refine ⟨rfl, rfl, rfl, fun htext => ?_⟩
        exact absurd (bind_of_error (hpanic (if_pos htext))) h

/-- The total of the fees after all outputs are accepted. -/
theorem foldl_fee (outputs : List Output) :
    (outputs.foldl (fun (t : Totals) (o : Output) => t.add (o.share w masterKey send recv))
      ⟨0, 0, 0⟩).fee = shares w masterKey send recv .fee outputs := by
  have hget := get_foldl_add w masterKey send recv .fee outputs ⟨0, 0, 0⟩
  exact hget.trans (Nat.zero_add _)

/-- If all amounts fit, the loops neither panic nor overflow. -/
theorem Fits.defends (hw : w.Returns) (h : Fits w masterBlinding psbtInfo utxos psbt) :
    Defends w masterBlinding psbtInfo utxos psbt := by
  have houtputs : ∀ {masterKey send recv pset},
      Opened w masterBlinding psbtInfo psbt masterKey send recv pset → HasRoom
        (checkOutput w masterKey send recv) (fun t o => t.Room (o.share w masterKey send recv))
        ⟨0, 0, 0⟩ pset.bothOutputs :=
    fun hopened => (outputsFit_iff _).mpr (h.outputs hopened)
  have hinputs : ∀ {masterKey send recv pset totals},
      Opened w masterBlinding psbtInfo psbt masterKey send recv pset →
      checkOutputs w masterKey send recv pset.bothOutputs = .ok totals → totals.fee ≠ 0 →
      HasRoom (checkInput w pset utxos send) (Spent.Room utxos send) ⟨0, []⟩ pset.bothInputs.zipIdx := by
    intro masterKey send recv pset totals hopened hok hfee
    -- the loop over the outputs has passed, so it accepted all of them
    have haccepted : ∀ o ∈ pset.bothOutputs, o.Accepted w masterKey send recv := by
      by_contra hrejected
      obtain ⟨e, he⟩ := foldlM_error outputRounds (houtputs hopened) hrejected
      rw [checkOutputs, he] at hok
      cases hok
    have hsum := foldlM_ok outputRounds (houtputs hopened) haccepted
    rw [checkOutputs, hsum] at hok
    cases hok
    rw [foldl_fee] at hfee
    exact (inputsFit_iff hw _).mpr (h.inputs hopened haccepted hfee)
  refine ⟨?_, houtputs, hinputs⟩
  have hopens : (∃ e, signPsbt w masterBlinding psbtInfo utxos psbt = .error (.error e)) ∨ _ :=
    signPsbt_opens h.key h.send h.recv h.text
  rcases hopens with ⟨e, he⟩ | ⟨masterKey, send, recv, pset, hopened⟩
  · rw [he]
    simp
  · -- the loops do not panic, and the transaction can be finished
    rw [signPsbt_of_opened hopened]
    intro hpanic
    simp only [bind_eq_error, ensure_eq_error, ensure_eq_ok, decide_eq_true_eq, reduceCtorEq, and_false,
      false_or, unwrap_eq_error, and_true] at hpanic
    rcases hpanic with hpanic | ⟨totals, hok, _, hfee, hpanic | ⟨spent, -, _, -, _, -, _, -, hnone⟩⟩
    · exact foldlM_ne_panic outputRounds (houtputs hopened) hpanic
    · exact foldlM_ne_panic (inputRounds hw) (hinputs hopened hok hfee) hpanic
    · have hsome := hw.finish psbt utxos spent.witnesses
      rw [hnone] at hsome
      cases hsome

theorem Defends.fits (hw : w.Returns) (h : Defends w masterBlinding psbtInfo utxos psbt) :
    Fits w masterBlinding psbtInfo utxos psbt := by
  obtain ⟨hkey, hsend, hrecv, htext⟩ := signPsbt_decodes h.returns
  refine ⟨hkey, hsend, hrecv, htext, fun hopened => ?_, fun hopened haccepted hfee => ?_⟩
  · exact (outputsFit_iff _).mp (h.outputs hopened)
  · have hok := foldlM_ok outputRounds (h.outputs hopened) haccepted
    refine (inputsFit_iff hw _).mp (h.inputs hopened hok ?_)
    rw [foldl_fee]
    exact hfee

/-! ### Exactly when -/

/-- For every library whose calls return, every wallet, agreement, list of utxos and PSET:
`signPsbt` returns or fails with an error, without an overflow, if and only if everything it adds up
fits. -/
theorem signPsbt_defends_iff (hw : w.Returns) (masterBlinding : Option Bytes) (psbtInfo : PsbtInfo)
    (utxos : List Utxo) (psbt : String) :
    Defends w masterBlinding psbtInfo utxos psbt ↔ Fits w masterBlinding psbtInfo utxos psbt :=
  ⟨Defends.fits hw, Fits.defends hw⟩

namespace Sample

/-- The first amount that a signed number cannot hold. -/
def half : ℕ := 2 ^ 63

/-- Two outputs that pay the wallet 2⁶³ each. -/
def hugePset : Psbt :=
  let pays : PsbtTxOutput := ⟨[1], 1 :: 0xb2 :: List.replicate 31 0, [2]⟩
  let blinded : PsbtOutput := ⟨[], [], [4], [3], [5], [6]⟩
  { txInputs := [], inputs := [], txOutputs := [pays, pays], outputs := [blinded, blinded] }

/-- A library that unblinds to large amounts. -/
def hugeWally : Wally :=
  { psbtFromBase64 := fun _ => some hugePset
    valueToSatoshi := fun _ => some half
    blindingKey := fun _ _ => some []
    unblind := fun _ _ _ _ _ _ => some (0xb2 :: List.replicate 31 0, half)
    generatorFromBytes := fun _ _ => some [3]
    valueCommitment := fun _ _ _ => some [4]
    witness := fun _ _ _ => some []
    finish := fun _ _ _ => some "signed" }

theorem hugeWally_returns : hugeWally.Returns := ⟨fun _ _ _ => rfl, fun _ _ _ => rfl⟩

end Sample

open Libwally.Sample in
/-- The amounts of the sample do not fit. -/
theorem signPsbt_defends_huge : ¬ Fits hugeWally (some []) ⟨gold, silver, 5, 7⟩ [] "" := by
  rw [← signPsbt_defends_iff hugeWally_returns]
  intro hdefends
  exact hdefends.returns (by decide +kernel)

open Libwally.Sample in
/-- A PSET that pays the wallet too much makes `signPsbt` panic. -/
theorem signPsbt_panics :
    ¬ ∀ (w : Wally) (masterKey : Bytes) (psbtInfo : PsbtInfo) (utxos : List Utxo) (psbt : String),
      w.Returns → (assetBytes psbtInfo.sendAsset).isSome = true →
        (assetBytes psbtInfo.recvAsset).isSome = true → '\x00' ∉ psbt.toList →
          Defends w (some masterKey) psbtInfo utxos psbt := by
  intro hall
  have hdefends := hall hugeWally [] ⟨gold, silver, 5, 7⟩ [] "" hugeWally_returns (by decide +kernel)
    (by decide +kernel) (by decide)
  exact hdefends.returns (by decide +kernel)

end SideSwap.Libwally
