import SideSwap.Libwally.Completed

/-!
# The wallet signs what it has built

`signPsbt_completed_iff`: the wallet signs a completed PSET exactly if the change fits into an
`i64`.  Otherwise the cast of the sum of the utxos makes it negative, and `generatePset` leaves the
change out; `signPsbt_completed_rejected` has such utxos.
-/

namespace SideSwap.Libwally

open Client Call

section Signing

variable {lib : Library} {wallet : WalletCtx} {w : Wally} {masterKey send recv : Bytes}
  {mine : Output → Bool} {psbtInfo : PsbtInfo} {utxos : List Utxo} {built : BuiltPset} {pset : Psbt}

/-- What is spent and what comes back differ by the amount sent exactly if the change fits. -/
theorem sends_iff (hsend : IsI64 psbtInfo.sendAmount) (hpos : 0 < psbtInfo.sendAmount)
    (hle : psbtInfo.sendAmount ≤ (utxos.map Utxo.satoshi).sum)
    (hsum : (utxos.map Utxo.satoshi).sum < 2 ^ 64) {change : ℕ}
    (hchange : change =
      if 0 < changeAmount psbtInfo utxos then asU64 (changeAmount psbtInfo utxos) else 0) :
    ((utxos.map Utxo.satoshi).sum > change ∧
        (utxos.map Utxo.satoshi).sum - change = asU64 psbtInfo.sendAmount) ↔
      ChangeFits psbtInfo utxos := by
  have hsent : (asU64 psbtInfo.sendAmount : ℤ) = psbtInfo.sendAmount :=
    asU64_of_nonneg hpos.le hsend.2
  rw [changeAmount_eq hsend hpos hle hsum] at hchange
  by_cases hfits : ChangeFits psbtInfo utxos
  · -- the change is what is left over, also if that is nothing
    have hleft : (change : ℤ) = (utxos.map Utxo.satoshi).sum - psbtInfo.sendAmount := by
      rw [if_pos hfits] at hchange
      split at hchange
      · rw [hchange]
        exact asU64_of_nonneg (by omega) hfits
      · omega
    refine iff_of_true ⟨?_, ?_⟩ hfits
    · omega
    · omega
  · -- there is no change
    have hnone : change = 0 := by
      rw [hchange, if_neg hfits]
      exact if_neg (by omega)
    refine iff_of_false (fun ⟨_, hall⟩ => hfits ?_) hfits
    unfold ChangeFits
    omega

theorem Found.signs_iff (hw : w.Returns) (hsend : IsI64 psbtInfo.sendAmount)
    (hpos : 0 < psbtInfo.sendAmount) (hle : psbtInfo.sendAmount ≤ (utxos.map Utxo.satoshi).sum)
    (hsum : (utxos.map Utxo.satoshi).sum < 2 ^ 64) {psbt : String}
    (hopened : Opened w (some masterKey) psbtInfo psbt masterKey send recv pset)
    (h : Found w masterKey send recv psbtInfo utxos pset) :
    (∃ signed, signPsbt w (some masterKey) psbtInfo utxos psbt = .ok signed) ↔
      ChangeFits psbtInfo utxos := by
  have houtputs : OutputsFit w masterKey send recv pset.bothOutputs := by
    refine outputsFit_of_shares fun total => ?_
    cases total with
    | fee => exact h.feeFits
    | recv =>
      rw [h.received]
      exact asU64_lt _
    | change =>
      rw [h.change]
      split
      · exact asU64_lt _
      · decide
  have hinputs : InputsFit utxos send pset.bothInputs := by
    refine inputsFit_of_spent ?_
    rw [h.spent]
    exact hsum
  -- both loops reach their ends
  obtain ⟨totals, htotals, hget⟩ : ∃ totals,
      checkOutputs w masterKey send recv pset.bothOutputs = .ok totals ∧
        ∀ total, totals.get total = shares w masterKey send recv total pset.bothOutputs := by
    refine ⟨_, foldlM_ok outputRounds ((outputsFit_iff _).mpr houtputs) h.outputs, fun total => ?_⟩
    rw [get_foldl_add]
    cases total <;> exact Nat.zero_add _
  obtain ⟨spent, hspent, hamount⟩ : ∃ spent,
      checkInputs w pset utxos send pset.bothInputs = .ok spent ∧
        spent.amount = (utxos.map Utxo.satoshi).sum := by
    refine ⟨_, foldlM_ok (inputRounds hw) ((inputsFit_iff hw _).mpr hinputs) fun i hi => ?_, ?_⟩
    · exact h.inputs _ (List.fst_mem_of_mem_zipIdx hi)
    · rw [foldl_add_amount, List.zipIdx_map_fst, h.spent]
      exact Nat.zero_add _
  have hfee : totals.fee ≠ 0 := by
    have hfee := hget .fee
    have hpositive := h.fee
    rw [← hfee] at hpositive
    exact hpositive
  have hrecv : totals.recv = asU64 psbtInfo.recvAmount := (hget .recv).trans h.received
  have hchange := (hget .change).trans h.change
  obtain ⟨signed, hfinish⟩ := Option.isSome_iff_exists.mp (hw.finish psbt utxos spent.witnesses)
  rw [← sends_iff hsend hpos hle hsum hchange, signPsbt_of_opened hopened]
  simp only [bind_eq_ok, htotals, hspent, ensure_eq_ok, unwrap_eq_ok, decide_eq_true_eq, Except.ok.injEq,
    exists_eq_left', hamount, hfinish]
  constructor
  · rintro ⟨_, _, -, _, hgt, _, hsent, -⟩
    exact ⟨hgt, hsent⟩
  · rintro ⟨hgt, hsent⟩
    exact ⟨signed, (), hfee, (), hgt, (), hsent, (), hrecv, rfl⟩

/-- For every correct library, wallet and agreement, and all utxos that do not overflow: a PSET that
was built by the wallet and honestly completed is signed if and only if the change fits into an
`i64`. -/
theorem signPsbt_completed_iff (hw : w.Correct lib masterKey mine) (hprints : wallet.Prints)
    (hsendAsset : assetBytes psbtInfo.sendAsset = some send)
    (hrecvAsset : assetBytes psbtInfo.recvAsset = some recv) (differ : send ≠ recv)
    (hsend : IsI64 psbtInfo.sendAmount) (hpos : 0 < psbtInfo.sendAmount)
    (hle : psbtInfo.sendAmount ≤ (utxos.map Utxo.satoshi).sum) (hrecv : 0 < psbtInfo.recvAmount)
    (hnodup : (utxos.map outpoint).Nodup) (hsum : (utxos.map Utxo.satoshi).sum < 2 ^ 64)
    (hbuilt : generatePset lib wallet psbtInfo utxos = .ok built) {psbt : String}
    (htext : '\x00' ∉ psbt.toList) (hdecoded : w.psbtFromBase64 psbt = some pset)
    (hcompleted : Completed w mine utxos built pset) :
    (∃ signed, signPsbt w (some masterKey) psbtInfo utxos psbt = .ok signed) ↔
      ChangeFits psbtInfo utxos := by
  have hopened : Opened w (some masterKey) psbtInfo psbt masterKey send recv pset :=
    ⟨rfl, hsendAsset, hrecvAsset, htext, hdecoded, hcompleted.inputLengths, hcompleted.outputLengths⟩
  have hfound := hcompleted.found hw hprints hsendAsset hrecvAsset differ hrecv hnodup hbuilt
  exact hfound.signs_iff hw.returns hsend hpos hle hsum hopened

end Signing

namespace Sample

/-- A number as bytes, the highest first. -/
def beBytes : ℕ → ℕ → Bytes
  | 0, _ => []
  | k + 1, n => beBytes k (n / 256) ++ [n.toUInt8]

/-- The number that bytes stand for. -/
def beValue (bytes : Bytes) : ℕ := bytes.foldl (fun n b => 256 * n + b.toNat) 0

theorem beValue_append (bytes : Bytes) (b : UInt8) :
    beValue (bytes ++ [b]) = 256 * beValue bytes + b.toNat := by
  simp [beValue]

theorem length_beBytes (k n : ℕ) : (beBytes k n).length = k := by
  induction k generalizing n with
  | zero => rfl
  | succ k ih => simp [beBytes, ih]

theorem beValue_beBytes (k n : ℕ) (h : n < 256 ^ k) : beValue (beBytes k n) = n := by
  induction k generalizing n with
  | zero =>
    obtain rfl : n = 0 := by simpa using h
    rfl
  | succ k ih =>
    have hrest : n / 256 < 256 ^ k := by
      rw [Nat.pow_succ] at h
      omega
    rw [beBytes, beValue_append, ih _ hrest]
    simp
    omega

theorem beValue_lt (bytes : Bytes) : beValue bytes < 256 ^ bytes.length := by
  induction bytes using List.reverseRecOn with
  | nil => decide
  | append_singleton bytes b ih =>
    have hb : b.toNat < 256 := b.toNat_lt
    rw [beValue_append, List.length_append, List.length_singleton, Nat.pow_succ]
    omega

/-- Scripts of the wallet begin with a hash. -/
def ours (o : Output) : Bool := o.1.script.head? = some 0xa9

/-- A library whose values are explicit. -/
def library : Library :=
  { txFromHex := fun _ => some [[]]
    txidFromStr := fun txid => (hexDecode txid.toList).map List.reverse
    hash160 := id
    p2shwpkhScript := fun key => 0xa9 :: key
    blindingPubkey := fun _ script => script
    valueFromSatoshi := fun amount => if amount < 2 ^ 64 then some (1 :: beBytes 8 amount) else none
    addsInput := fun _ => true
    addsOutput := fun _ => true
    toBase64 := fun _ => some "pset" }

/-- The amount in an explicit value. -/
def explicitAmount : Bytes → Option ℕ
  | 1 :: bytes => if bytes.length = 8 then some (beValue bytes) else none
  | _ => none

/-- A library that knows one partial transaction. -/
def wallyFor (pset : Psbt) : Wally :=
  { psbtFromBase64 := fun text => if text = "pset" then some pset else none
    valueToSatoshi := explicitAmount
    blindingKey := fun _ script => some script
    unblind := fun _ _ _ commitment script generator =>
      if script.head? = some 0xa9 then some (generator.tail, beValue commitment.tail) else none
    generatorFromBytes := fun asset _ => some (10 :: asset)
    valueCommitment := fun amount _ _ => some (8 :: beBytes 8 amount)
    witness := fun _ _ _ => some []
    finish := fun _ _ _ => some "signed" }

theorem explicitAmount_lt {value : Bytes} {amount : ℕ} (h : explicitAmount value = some amount) :
    amount < 2 ^ 64 := by
  unfold explicitAmount at h
  split at h
  · rename_i bytes
    split at h
    · rename_i hlen
      cases h
      have hlt := beValue_lt bytes
      rw [hlen] at hlt
      exact hlt
    · cases h
  · cases h

theorem wallyFor_correct (pset : Psbt) (masterKey : Bytes) :
    (wallyFor pset).Correct library masterKey ours where
  -- what the library returns on the coins and outputs of the sample
  returns := ⟨fun _ _ _ => rfl, fun _ _ _ => rfl⟩
  blindingKey _ _ := rfl
  unblinds o key hours hblinded _ := by
    obtain ⟨amount, hvalue, hgenerator, hcommitment⟩ := hblinded.opens
    have hlt : amount < 256 ^ 8 := explicitAmount_lt hvalue
    have hscript : o.1.script.head? = some 0xa9 := of_decide_eq_true hours
    rw [hvalue]
    cases hgenerator' : o.2.assetCommitment
    · simp [wallyFor, hgenerator'] at hgenerator
    · simp only [wallyFor, hgenerator', Option.some.injEq, List.cons.injEq] at hgenerator hcommitment
      simp [Wally.unblindOutput, wallyFor, hscript, ← hcommitment, hgenerator', hgenerator.2,
        beValue_beBytes _ _ hlt]
  foreign o key hforeign _ := if_neg (of_decide_eq_false hforeign)
  amounts _ _ h := explicitAmount_lt h
  values amount value h := by
    simp only [library] at h
    split at h
    · rename_i hlt
      cases h
      have hlt : amount < 256 ^ 8 := hlt
      simp [wallyFor, explicitAmount, length_beBytes, beValue_beBytes _ _ hlt]
    · cases h

/-- A coin of the samples. -/
def spentUtxo (satoshi : ℕ) : Utxo :=
  { txhash := "ab", satoshi := satoshi, ptIdx := 0, derivationPath := [1] }

/-- The wallet of the samples. -/
def wallet : WalletCtx :=
  { listTx := some [⟨"ab", ""⟩]
    nextAddress := fun n => some n
    unblinded := fun _ _ => some ([5], [6])
    publicKey := fun path => some (path.map Nat.toUInt8)
    masterBlinding := some [] }

theorem wallet_prints : wallet.Prints := by
  intro txs htxs t ht
  cases htxs
  rw [List.mem_singleton] at ht
  exact ⟨[0xab], by rw [ht]; decide⟩

/-- An output with the commitments of the sample library. -/
def blind (script asset value : Bytes) : Output :=
  (⟨script, asset, value⟩,
    ⟨[], [], 8 :: beBytes 8 ((explicitAmount value).getD 0), 10 :: asset.drop 1, [5], [6]⟩)

/-- An asset that is not hidden. -/
def explicitAsset : Bytes := 1 :: List.replicate 32 0

/-- An input of the other side. -/
def foreignInput : Input := (⟨[1], 3⟩, ⟨[], sighashAll⟩)

/-- An output of the other side. -/
def foreignOutput : Output := blind [0x51] explicitAsset (1 :: beBytes 8 3)

/-- The output that pays the fee. -/
def feeOutput : Output := (⟨[], explicitAsset, 1 :: beBytes 8 40⟩, ⟨[], [], [], [], [], []⟩)

/-- The inputs that the wallet has offered. -/
def ownInputs (built : BuiltPset) : List Input :=
  built.inputs.map fun b => (⟨b.txhash, b.index⟩, ⟨b.asset, 0⟩)

/-- The outputs that the wallet has asked for. -/
def ownOutputs (built : BuiltPset) : List Output :=
  built.outputs.map fun b => blind b.script b.asset b.value

/-- What was built between what others add. -/
def complete (built : BuiltPset) : Psbt :=
  let inputs := foreignInput :: ownInputs built
  let outputs := feeOutput :: ownOutputs built ++ [foreignOutput]
  { txInputs := inputs.map Prod.fst, inputs := inputs.map Prod.snd
    txOutputs := outputs.map Prod.fst, outputs := outputs.map Prod.snd }

theorem bothInputs_complete (built : BuiltPset) :
    (complete built).bothInputs = foreignInput :: ownInputs built :=
  (List.zip_of_prod rfl rfl).symm

theorem bothOutputs_complete (built : BuiltPset) :
    (complete built).bothOutputs = feeOutput :: ownOutputs built ++ [foreignOutput] :=
  (List.zip_of_prod rfl rfl).symm

/-- What was built can be blinded. -/
def Blindable (b : BuiltOutput) : Prop :=
  b.script.head? = some 0xa9 ∧ b.asset.length = assetCtLen ∧ (explicitAmount b.value).isSome = true

instance (b : BuiltOutput) : Decidable (Blindable b) := inferInstanceAs (Decidable (_ ∧ _))

theorem blind_blinded {pset : Psbt} {script asset value : Bytes} (hscript : script ≠ [])
    (hasset : asset.length = assetCtLen) (hvalue : (explicitAmount value).isSome = true) :
    (blind script asset value).Blinded (wallyFor pset) := by
  obtain ⟨amount, hamount⟩ := Option.isSome_iff_exists.mp hvalue
  refine ⟨hscript, hasset, by simp [blind], by simp [blind], amount, hamount, rfl, ?_⟩
  rw [blind, hamount]
  rfl

theorem completed_complete {built : BuiltPset} {satoshi : ℕ}
    (hbuilt : ∀ b ∈ built.outputs, Blindable b) :
    Completed (wallyFor (complete built)) ours [spentUtxo satoshi] built (complete built) where
  inputLengths := by simp [complete]
  outputLengths := by simp [complete]
  sighash i hi := by
    -- each input signs everything
    rw [bothInputs_complete, List.mem_cons, ownInputs, List.mem_map] at hi
    rcases hi with rfl | ⟨b, -, rfl⟩
    · exact .inr rfl
    · exact .inl rfl
  -- the coin of the wallet, with the input of the other side
  inputs := by
    refine ⟨ownInputs built, [foreignInput], ?_, ?_, ?_⟩
    · rw [bothInputs_complete]
      exact (List.perm_append_singleton _ _).symm
    · rw [ownInputs, List.forall₂_map_left_iff, List.forall₂_same]
      exact fun b _ => ⟨rfl, rfl, rfl⟩
    · simp only [List.forall_mem_singleton]
      rfl
  -- the outputs of the wallet, with the output of the other side and the fee
  outputs := by
    have hforeign : ours foreignOutput = false ∧
        foreignOutput.Blinded (wallyFor (complete built)) :=
      ⟨by decide, blind_blinded (by decide) (by decide) (by decide)⟩
    refine ⟨ownOutputs built, [foreignOutput], feeOutput, ?_, ?_, ?_, ?_, by decide, rfl, 40, ?_, ?_⟩
    · rw [bothOutputs_complete]
    · rw [ownOutputs, List.forall₂_map_left_iff, List.forall₂_same]
      exact fun b _ => ⟨rfl, rfl, rfl⟩
    · intro o ho
      obtain ⟨b, hb, rfl⟩ := List.mem_map.mp ho
      obtain ⟨hscript, hasset, hvalue⟩ := hbuilt b hb
      refine ⟨decide_eq_true hscript, blind_blinded (fun hnil => ?_) hasset hvalue⟩
      rw [hnil] at hscript
      cases hscript
    · simp only [List.forall_mem_singleton]
      exact hforeign
    · show explicitAmount feeOutput.1.value = some 40
      decide
    · decide

theorem decoded_complete (built : BuiltPset) :
    (wallyFor (complete built)).psbtFromBase64 "pset" = some (complete built) := by
  simp [wallyFor]

/-- What `generatePset` builds for an output that receives `amount`, with the pointer `n`. -/
def builtOutput (n : UInt8) (prefixed : Bytes) (amount : ℕ) : BuiltOutput :=
  { script := [0xa9, 0, n], asset := prefixed, value := 1 :: beBytes 8 amount
    redeemScript := [0, 20, 0, n], blindingPubkey := [0xa9, 0, n] }

/-- An input that the wallet offers. -/
def builtInput (satoshi : ℕ) : BuiltInput :=
  { txhash := [0xab], index := 0, sequence := 2 ^ 32 - 1, abf := [5], vbf := [6]
    witnessUtxo := [], redeemScript := [0, 20, 1], value := satoshi
    asset := 0xa1 :: List.replicate 31 0 }

/-- What the wallet offers and asks for. -/
def built (satoshi : ℕ) (outputs : List BuiltOutput) : BuiltPset :=
  { magic := [0x70, 0x73, 0x65, 0x74, 0xff], version := 0, txVersion := 2
    inputs := [builtInput satoshi], outputs := outputs }

def goldTagged : Bytes := 1 :: 0xa1 :: List.replicate 31 0

def silverTagged : Bytes := 1 :: 0xb2 :: List.replicate 31 0

def withChange : BuiltPset := built 12 [builtOutput 0 silverTagged 7, builtOutput 1 goldTagged 7]

theorem withChange_built :
    generatePset library wallet ⟨gold, silver, 5, 7⟩ [spentUtxo 12] = .ok withChange := by
  decide +kernel

theorem withChange_blindable : ∀ b ∈ withChange.outputs, Blindable b := by decide +kernel

end Sample

open Libwally.Sample in
/-- Twelve are spent, five sent: the change fits, and the PSET is signed. -/
theorem signPsbt_completed_twelve :
    (∃ signed, signPsbt (wallyFor (complete withChange)) (some []) ⟨gold, silver, 5, 7⟩
        [spentUtxo 12] "pset" = .ok signed) ↔ ChangeFits ⟨gold, silver, 5, 7⟩ [spentUtxo 12] :=
  signPsbt_completed_iff (wallyFor_correct _ []) wallet_prints assetBytes_gold assetBytes_silver
    (by decide) (by decide) (by decide) (by decide) (by decide) (by decide) (by decide)
    withChange_built (by decide) (decoded_complete withChange) (completed_complete withChange_blindable)

namespace Sample

def large : ℕ := 2 ^ 63 + 1

def withoutChange : BuiltPset := built large [builtOutput 0 silverTagged 7]

theorem withoutChange_built :
    generatePset library wallet ⟨gold, silver, 1, 7⟩ [spentUtxo large] = .ok withoutChange := by
  decide +kernel

theorem withoutChange_blindable : ∀ b ∈ withoutChange.outputs, Blindable b := by decide +kernel

/-- The wallet rejects it, as it finds that everything is sent. -/
theorem withoutChange_rejected : signPsbt (wallyFor (complete withoutChange)) (some [])
    ⟨gold, silver, 1, 7⟩ [spentUtxo large] "pset" =
      .error (.error "Condition failed: `send_amount == psbt_info.send_amount as u64`") := by
  decide +kernel

end Sample

open Libwally.Sample in
/-- The wallet does not sign what it has built if the change is too large. -/
theorem signPsbt_completed_rejected :
    ¬ ∀ (w : Wally) (lib : Library) (wallet : WalletCtx) (masterKey send recv : Bytes)
      (mine : Output → Bool) (psbtInfo : PsbtInfo) (utxos : List Utxo) (built : BuiltPset) (pset : Psbt)
      (psbt : String), w.Correct lib masterKey mine → wallet.Prints →
        assetBytes psbtInfo.sendAsset = some send → assetBytes psbtInfo.recvAsset = some recv →
        send ≠ recv → IsI64 psbtInfo.sendAmount → IsI64 psbtInfo.recvAmount →
        0 < psbtInfo.sendAmount → psbtInfo.sendAmount ≤ (utxos.map Utxo.satoshi).sum →
        0 < psbtInfo.recvAmount → (utxos.map outpoint).Nodup →
        (utxos.map Utxo.satoshi).sum < 2 ^ 64 → generatePset lib wallet psbtInfo utxos = .ok built →
        '\x00' ∉ psbt.toList → w.psbtFromBase64 psbt = some pset →
        Completed w mine utxos built pset →
          ∃ signed, signPsbt w (some masterKey) psbtInfo utxos psbt = .ok signed := by
  intro hall
  obtain ⟨signed, hsigned⟩ := hall (wallyFor (complete withoutChange)) library wallet [] _ _ ours
    ⟨gold, silver, 1, 7⟩ [spentUtxo large] withoutChange (complete withoutChange) "pset"
    (wallyFor_correct _ []) wallet_prints assetBytes_gold assetBytes_silver (by decide) (by decide)
    (by decide) (by decide) (by decide) (by decide) (by decide) (by decide)
    withoutChange_built (by decide) (decoded_complete _) (completed_complete withoutChange_blindable)
  rw [withoutChange_rejected] at hsigned
  cases hsigned

end SideSwap.Libwally
