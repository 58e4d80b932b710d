import SideSwap.Libwally.SignPsbt

/-!
# What a signed PSET gives and takes

What the wallet really gives and gets in a PSET is a matter of the chain (`Chain`): which outputs
pay it and what they commit to, and which asset an input really holds.  Unblinding tells the truth
about the former (`Wally.Faithful`).  `ValueExact` says that the PSET takes and pays exactly the
amounts agreed on.

The totals of the two loops are the wallet's sums (`checkOutputs_from`, `checkInputs_from`).  The
last test compares them with the agreed amounts cast to `u64`, so a negative amount stands for one
of 2⁶³ and more (`signPsbt_valueExact_iff`).
-/

namespace SideSwap.Libwally

open Client Call

/-! ### What a PSET means to the wallet -/

/-- What the inputs and outputs of a PSET are on the chain. -/
structure Chain where
  pays : Output → Bool
  committed : Output → Bytes × ℕ
  realAsset : Input → Bytes

/-- Unblinding succeeds on the outputs that pay the wallet, and returns what they commit to.  An
output without a script pays nobody. -/
structure Wally.Faithful (w : Wally) (masterKey : Bytes) (chain : Chain) : Prop where
  fee_unpaid : ∀ o : Output, o.1.script = [] → chain.pays o = false
  unblinds : ∀ (o : Output) (key : Bytes), w.blindingKey masterKey o.1.script = some key →
    (w.unblindOutput key o).isSome = chain.pays o
  committed : ∀ (o : Output) (key : Bytes) (found : Bytes × ℕ),
    w.blindingKey masterKey o.1.script = some key → w.unblindOutput key o = some found →
    found = chain.committed o

/-- What an output pays the wallet in an asset. -/
def Chain.owned (chain : Chain) (asset : Bytes) (o : Output) : ℕ :=
  if chain.pays o ∧ (chain.committed o).1 = asset then (chain.committed o).2 else 0

/-- What the outputs pay the wallet in an asset. -/
def Chain.received (chain : Chain) (asset : Bytes) (outputs : List Output) : ℕ :=
  (outputs.map (chain.owned asset)).sum

/-- What an input takes from the wallet. -/
def Input.satoshi (utxos : List Utxo) (i : Input) : ℕ :=
  match i.utxo utxos with
  | some utxo => utxo.satoshi
  | none => 0

/-- What the inputs take from the wallet. -/
def spentAmount (utxos : List Utxo) (inputs : List Input) : ℕ :=
  (inputs.map (Input.satoshi utxos)).sum

/-- The commitments of an output open to the asset and the amount that it states. -/
def Output.Opens (w : Wally) (o : Output) : Prop :=
  ∃ amount, w.valueToSatoshi o.1.value = some amount
    ∧ w.generatorFromBytes o.asset o.2.abf = some o.2.assetCommitment
    ∧ w.valueCommitment amount o.2.vbf o.2.assetCommitment = some o.2.valueCommitment

/-- An output without a script and with a positive amount. -/
def Output.PaysFee (w : Wally) (o : Output) : Prop :=
  o.1.script = [] ∧ ∃ amount, w.valueToSatoshi o.1.value = some amount ∧ 0 < amount

/-- The PSET takes from the wallet what was agreed and pays it what was agreed, and is otherwise
one that the wallet may sign. -/
structure ValueExact (w : Wally) (chain : Chain) (psbtInfo : PsbtInfo) (send recv : Bytes)
    (utxos : List Utxo) (inputs : List Input) (outputs : List Output) : Prop where
  sent : (spentAmount utxos inputs : ℤ) - chain.received send outputs = psbtInfo.sendAmount
  positive : 0 < psbtInfo.sendAmount
  sentAsset : ∀ i ∈ inputs, (i.utxo utxos).isSome → chain.realAsset i = send
  received : (chain.received recv outputs : ℤ) = psbtInfo.recvAmount
  noOther : ∀ o ∈ outputs, chain.pays o → (chain.committed o).1 = send ∨ (chain.committed o).1 = recv
  commitments : ∀ o ∈ outputs, o.1.script ≠ [] → o.Opens w
  fee : ∃ o ∈ outputs, o.PaysFee w
  sighash : ∀ i ∈ inputs, i.2.sighash = 0 ∨ i.2.sighash = sighashAll

/-! ### The loop over the outputs -/

section Outputs

variable {w : Wally} {masterKey send recv : Bytes} {chain : Chain} {o : Output} {amount : ℕ}
  {t t' : Totals}

theorem countOwned_ok {found : Bytes × ℕ} (h : countOwned send recv o amount t found = .ok t') :
    found = (o.asset, amount) ∧
      (o.asset = recv ∧ t' = { t with recv := t.recv + amount }
        ∨ o.asset ≠ recv ∧ o.asset = send ∧ t' = { t with change := t.change + amount }) := by
  obtain ⟨asset, value⟩ := found
  simp only [countOwned, bind_eq_ok, ensure_eq_ok, decide_eq_true_eq] at h
  obtain ⟨_, rfl, _, rfl, h⟩ := h
  refine ⟨rfl, ?_⟩
  split at h
  · next hr =>
    simp only [bind_eq_ok, checkedAdd_eq_ok, pure_eq_ok] at h
    obtain ⟨_, ⟨_, rfl⟩, rfl⟩ := h
    exact .inl ⟨hr, rfl⟩
  · next hr =>
    split at h
    · next hs =>
      simp only [bind_eq_ok, checkedAdd_eq_ok, pure_eq_ok] at h
      obtain ⟨_, ⟨_, rfl⟩, rfl⟩ := h
      exact .inr ⟨hr, hs, rfl⟩
    · cases h

theorem checkCommitments_opens (hv : w.valueToSatoshi o.1.value = some amount)
    (h : checkCommitments w o amount = .ok ()) : o.Opens w := by
  simp only [checkCommitments, bind_eq_ok, ensure_eq_ok, okOr_eq_ok, decide_eq_true_eq] at h
  obtain ⟨_, _, _, _, _, hg, _, rfl, _, hc, rfl⟩ := h
  exact ⟨amount, hv, hg, hc⟩

/-- What one round of the loop adds to the totals, and what it has checked. -/
structure OutputStep (w : Wally) (chain : Chain) (send recv : Bytes) (t : Totals) (o : Output)
    (t' : Totals) : Prop where
  received : t'.recv = t.recv + chain.owned recv o
  change : t'.change = t.change + chain.owned send o
  noOther : chain.pays o → (chain.committed o).1 = send ∨ (chain.committed o).1 = recv
  commitments : o.1.script ≠ [] → o.Opens w
  fee : t'.fee ≠ 0 → t.fee ≠ 0 ∨ o.PaysFee w

theorem Chain.owned_of_unpaid (asset : Bytes) (h : chain.pays o = false) :
    chain.owned asset o = 0 := by
  simp [Chain.owned, h]

theorem Chain.owned_of_paid (asset : Bytes) (h : chain.pays o = true) :
    chain.owned asset o = if (chain.committed o).1 = asset then (chain.committed o).2 else 0 := by
  simp [Chain.owned, h]

/-- An output with a script adds its committed value to one of the two totals if it is the
wallet's, and nothing otherwise. -/
theorem checkScriptOutput_step (hw : w.Faithful masterKey chain) (hne : send ≠ recv)
    (hv : w.valueToSatoshi o.1.value = some amount)
    (h : checkScriptOutput w masterKey send recv t o amount = .ok t') :
    OutputStep w chain send recv t o t' := by
  simp only [checkScriptOutput, bind_eq_ok, okOr_eq_ok] at h
  obtain ⟨key, hkey, t'', hcount, _, hopens, h⟩ := h
  obtain rfl : t'' = t' := by simpa using h
  have hopens : o.1.script ≠ [] → o.Opens w := fun _ => checkCommitments_opens hv hopens
  have hpays := hw.unblinds o key hkey
  -- the output is the wallet's exactly if it can be unblinded
  unfold countOutput at hcount
  cases hfound : w.unblindOutput key o with
  | none =>
    rw [hfound] at hcount hpays
    obtain rfl : t = t'' := by simpa using hcount
    have hunpaid : chain.pays o = false := hpays.symm
    exact {
      received := by rw [Chain.owned_of_unpaid _ hunpaid, Nat.add_zero]
      change := by rw [Chain.owned_of_unpaid _ hunpaid, Nat.add_zero]
      noOther := fun hp => absurd hp (by rw [hunpaid]; decide)
      commitments := hopens
      fee := .inl }
  | some found =>
    rw [hfound] at hcount hpays
    have hpaid : chain.pays o = true := hpays.symm
    have hcom := hw.committed o key found hkey hfound
    obtain ⟨rfl, hcase⟩ := countOwned_ok hcount
    have hrecv := Chain.owned_of_paid recv hpaid
    have hsend := Chain.owned_of_paid send hpaid
    rw [← hcom] at hrecv hsend
    obtain ⟨hr, rfl⟩ | ⟨hr, hs, rfl⟩ := hcase
    · have hs : o.asset ≠ send := fun hs => hne (hs.symm.trans hr)
      exact {
        received := by rw [hrecv, if_pos hr]
        change := by rw [hsend, if_neg hs, Nat.add_zero]
        noOther := fun _ => .inr (by rw [← hcom]; exact hr)
        commitments := hopens
        fee := .inl }
    · exact {
        received := by rw [hrecv, if_neg hr, Nat.add_zero]
        change := by rw [hsend, if_pos hs]
        noOther := fun _ => .inl (by rw [← hcom]; exact hs)
        commitments := hopens
        fee := .inl }

theorem checkOutput_step (hw : w.Faithful masterKey chain) (hne : send ≠ recv)
    (h : checkOutput w masterKey send recv t o = .ok t') : OutputStep w chain send recv t o t' := by
  simp only [checkOutput, bind_eq_ok, ensure_eq_ok, okOr_eq_ok] at h
  obtain ⟨_, _, amount, hv, h⟩ := h
  split at h
  · exact checkScriptOutput_step hw hne hv h
  · next hlen =>
    have hscript : o.1.script = [] := by simpa using hlen
    have hunpaid := hw.fee_unpaid o hscript
    simp only [pure_eq_ok] at h
    subst h
    refine {
      received := by rw [Chain.owned_of_unpaid _ hunpaid, Nat.add_zero]
      change := by rw [Chain.owned_of_unpaid _ hunpaid, Nat.add_zero]
      noOther := fun hp => absurd hp (by rw [hunpaid]; decide)
      commitments := fun hs => absurd hscript hs
      fee := fun hfee => ?_ }
    by_cases hzero : amount = 0
    · left
      intro ht
      apply hfee
      simp [ht, hzero]
    · exact .inr ⟨hscript, amount, hv, Nat.pos_of_ne_zero hzero⟩

/-- The loop over the outputs, from any totals. -/
theorem checkOutputs_from (hw : w.Faithful masterKey chain) (hne : send ≠ recv) :
    ∀ (outputs : List Output) {t t' : Totals},
      outputs.foldlM (checkOutput w masterKey send recv) t = .ok t' →
      t'.recv = t.recv + chain.received recv outputs
        ∧ t'.change = t.change + chain.received send outputs
        ∧ (∀ o ∈ outputs, chain.pays o →
          (chain.committed o).1 = send ∨ (chain.committed o).1 = recv)
        ∧ (∀ o ∈ outputs, o.1.script ≠ [] → o.Opens w)
        ∧ (t'.fee ≠ 0 → t.fee ≠ 0 ∨ ∃ o ∈ outputs, o.PaysFee w) := by
  intro outputs
  induction outputs with
  | nil =>
    intro t t' h
    obtain rfl : t = t' := by simpa using h
    simp [Chain.received]
  | cons o outputs ih =>
    intro t t' h
    rw [List.foldlM_cons, bind_eq_ok] at h
    obtain ⟨t₁, hstep, hrest⟩ := h
    -- the totals of the rest go on from those after the first output
    have step := checkOutput_step hw hne hstep
    obtain ⟨hrecv, hchange, hother, hopens, hfee⟩ := ih hrest
    refine ⟨?_, ?_, ?_, ?_, ?_⟩
    · rw [hrecv, step.received, Nat.add_assoc]
      rfl
    · rw [hchange, step.change, Nat.add_assoc]
      rfl
    · exact List.forall_mem_cons.mpr ⟨step.noOther, hother⟩
    · exact List.forall_mem_cons.mpr ⟨step.commitments, hopens⟩
    · intro hne'
      obtain ht₁ | ⟨p, hp, hpays⟩ := hfee hne'
      · obtain ht | hpays := step.fee ht₁
        · exact .inl ht
        · exact .inr ⟨o, List.mem_cons_self, hpays⟩
      · exact .inr ⟨p, List.mem_cons_of_mem o hp, hpays⟩

end Outputs

/-! ### The loop over the inputs -/

section Inputs

variable {w : Wally} {pset : Psbt} {utxos : List Utxo} {send : Bytes}

theorem checkInput_step {s s' : Spent} {i : Input × ℕ}
    (h : checkInput w pset utxos send s i = .ok s') :
    s'.amount = s.amount + i.1.satoshi utxos
      ∧ ((i.1.utxo utxos).isSome → i.1.2.asset = send)
      ∧ (i.1.2.sighash = 0 ∨ i.1.2.sighash = sighashAll) := by
  simp only [checkInput, bind_eq_ok, ensure_eq_ok, decide_eq_true_eq] at h
  obtain ⟨_, hsig, h⟩ := h
  cases hutxo : i.1.utxo utxos with
  | none =>
    rw [hutxo] at h
    obtain rfl : s = s' := by simpa using h
    simp [Input.satoshi, hutxo, hsig]
  | some utxo =>
    rw [hutxo] at h
    simp only [bind_eq_ok, ensure_eq_ok, decide_eq_true_eq, checkedAdd_eq_ok, unwrap_eq_ok, pure_eq_ok] at h
    obtain ⟨_, hasset, amount, ⟨_, rfl⟩, witness, _, rfl⟩ := h
    simp [Input.satoshi, hutxo, hasset, hsig]

/-- The loop over the inputs, from any total and any index. -/
theorem checkInputs_from :
    ∀ (inputs : List Input) (n : ℕ) {s s' : Spent},
      (inputs.zipIdx n).foldlM (checkInput w pset utxos send) s = .ok s' →
      s'.amount = s.amount + spentAmount utxos inputs
        ∧ (∀ i ∈ inputs, (i.utxo utxos).isSome → i.2.asset = send)
        ∧ (∀ i ∈ inputs, i.2.sighash = 0 ∨ i.2.sighash = sighashAll) := by
  intro inputs
  induction inputs with
  | nil =>
    intro n s s' h
    obtain rfl : s = s' := by simpa using h
    simp [spentAmount]
  | cons i inputs ih =>
    intro n s s' h
    rw [List.zipIdx_cons, List.foldlM_cons, bind_eq_ok] at h
    obtain ⟨s₁, hstep, hrest⟩ := h
    obtain ⟨hamount, hasset, hsig⟩ := checkInput_step hstep
    obtain ⟨hamount', hasset', hsig'⟩ := ih (n + 1) hrest
    refine ⟨?_, List.forall_mem_cons.mpr ⟨hasset, hasset'⟩, List.forall_mem_cons.mpr ⟨hsig, hsig'⟩⟩
    rw [hamount', hamount, Nat.add_assoc]
    rfl

end Inputs

/-! ### Signing -/

/-- With this agreement, whatever `signPsbt` signs is exact: for every library, wallet, list of
utxos and PSET in which the wallet's inputs declare the asset that they really hold. -/
def SignsExactly (psbtInfo : PsbtInfo) : Prop :=
  ∀ (w : Wally) (masterBlinding : Option Bytes) (chain : Chain) (utxos : List Utxo) (psbt : String)
    (pset : Psbt) (send recv : Bytes) (signed : String),
    (∀ masterKey ∈ masterBlinding, w.Faithful masterKey chain) →
    w.psbtFromBase64 psbt = some pset →
    assetBytes psbtInfo.sendAsset = some send → assetBytes psbtInfo.recvAsset = some recv →
    (∀ i ∈ pset.bothInputs, (i.utxo utxos).isSome → i.2.asset = chain.realAsset i) →
    signPsbt w masterBlinding psbtInfo utxos psbt = .ok signed →
    ValueExact w chain psbtInfo send recv utxos pset.bothInputs pset.bothOutputs

/-- What `signPsbt` has established when it signs: the totals agree with the amounts as `u64`. -/
theorem signPsbt_ok {w : Wally} {masterBlinding : Option Bytes} {psbtInfo : PsbtInfo}
    {utxos : List Utxo} {psbt signed : String} {pset : Psbt} {send recv : Bytes}
    (hpset : w.psbtFromBase64 psbt = some pset)
    (hsend : assetBytes psbtInfo.sendAsset = some send)
    (hrecv : assetBytes psbtInfo.recvAsset = some recv)
    (h : signPsbt w masterBlinding psbtInfo utxos psbt = .ok signed) :
    ∃ masterKey totals spent, masterBlinding = some masterKey
      ∧ checkOutputs w masterKey send recv pset.bothOutputs = .ok totals
      ∧ checkInputs w pset utxos send pset.bothInputs = .ok spent
      ∧ totals.fee ≠ 0 ∧ totals.change < spent.amount
      ∧ spent.amount - totals.change = asU64 psbtInfo.sendAmount
      ∧ totals.recv = asU64 psbtInfo.recvAmount := by
  simp only [signPsbt, bind_eq_ok, unwrap_eq_ok, okOr_eq_ok, ensure_eq_ok, hsend, hrecv,
    Option.some.injEq, decide_eq_true_eq] at h
  obtain ⟨masterKey, hkey, _, rfl, _, rfl, text, htext, pset', hpset', _, _, _, _, totals, hout, _,
    hfee, spent, hin, _, hmore, _, hsent, _, hgot, _⟩ := h
  obtain rfl : psbt = text := by
    split at htext
    · cases htext
    · exact Option.some.inj htext
  obtain rfl : pset = pset' := Option.some.inj (hpset.symm.trans hpset')
  exact ⟨masterKey, totals, spent, hkey, hout, hin, hfee, hmore, hsent, hgot⟩

/-- Agreed amounts that are not negative are taken and paid exactly. -/
theorem signsExactly_of_nonneg {psbtInfo : PsbtInfo}
    (hne : assetBytes psbtInfo.sendAsset ≠ assetBytes psbtInfo.recvAsset)
    (hsend : IsI64 psbtInfo.sendAmount) (hrecv : IsI64 psbtInfo.recvAmount)
    (h : psbtInfo.sendAmount = 0 ∨ 0 < psbtInfo.sendAmount ∧ 0 ≤ psbtInfo.recvAmount) :
    SignsExactly psbtInfo := by
  intro w masterBlinding chain utxos psbt pset send recv signed hw hpset hs hr hdeclared hsigned
  obtain ⟨masterKey, totals, spent, hkey, hout, hin, hfee, hmore, hsent, hgot⟩ :=
    signPsbt_ok hpset hs hr hsigned
  have hassets : send ≠ recv := by
    rintro rfl
    exact hne (hs.trans hr.symm)
  obtain ⟨hrecvd, hchange, hother, hopens, hpaid⟩ :=
    checkOutputs_from (hw masterKey hkey) hassets _ hout
  obtain ⟨hamount, hasset, hsig⟩ := checkInputs_from _ 0 hin
  rw [Nat.zero_add] at hrecvd hchange hamount
  -- a zero amount is never signed, as more must be spent than comes back
  have hpos : 0 < psbtInfo.sendAmount ∧ 0 ≤ psbtInfo.recvAmount := by
    refine h.resolve_left fun hzero => ?_
    rw [hzero, show asU64 0 = 0 from rfl] at hsent
    omega
  have hcast := asU64_of_nonneg hpos.1.le hsend.2
  have hcast' := asU64_of_nonneg hpos.2 hrecv.2
  exact {
    sent := by omega
    positive := hpos.1
    sentAsset := fun i hi hu => (hdeclared i hi hu).symm.trans (hasset i hi hu)
    received := by omega
    noOther := hother
    commitments := hopens
    fee := (hpaid hfee).resolve_left (fun h => h rfl)
    sighash := hsig }

/-! ### A PSET for any two amounts

One input of the wallet's and two outputs: one pays the wallet, one is the fee.  The amounts are
the agreed ones as `u64`. -/

namespace Sample

/-- A coin of the samples. -/
def utxo (psbtInfo : PsbtInfo) : Utxo :=
  { txhash := "", satoshi := asU64 psbtInfo.sendAmount, ptIdx := 0, derivationPath := [] }

/-- A partial transaction with one input and two outputs. -/
def pset (send recv : Bytes) : Psbt :=
  { txInputs := [⟨[], 0⟩], inputs := [⟨send, 0⟩]
    txOutputs := [⟨[1], 1 :: recv, [2]⟩, ⟨[], 1 :: recv, [1]⟩]
    outputs := [⟨[], [], [4], [3], [5], [6]⟩, ⟨[], [], [], [], [], []⟩] }

/-- A library that unblinds it. -/
def wally (psbtInfo : PsbtInfo) (send recv : Bytes) : Wally :=
  { psbtFromBase64 := fun _ => some (pset send recv)
    valueToSatoshi := fun value => if value = [1] then some 1 else some (asU64 psbtInfo.recvAmount)
    blindingKey := fun _ _ => some []
    unblind := fun _ _ _ _ script _ =>
      if script = [] then none else some (recv, asU64 psbtInfo.recvAmount)
    generatorFromBytes := fun _ _ => some [3]
    valueCommitment := fun _ _ _ => some [4]
    witness := fun _ _ _ => some []
    finish := fun _ _ _ => some "signed" }

/-- The chain that holds its coin. -/
def chain (psbtInfo : PsbtInfo) (send recv : Bytes) : Chain :=
  { pays := fun o => o.1.script ≠ []
    committed := fun _ => (recv, asU64 psbtInfo.recvAmount)
    realAsset := fun _ => send }

end Sample

section Forged

variable {psbtInfo : PsbtInfo} {send recv : Bytes}

theorem sample_faithful (key : Bytes) :
    (Sample.wally psbtInfo send recv).Faithful key (Sample.chain psbtInfo send recv) where
  fee_unpaid o ho := by simp [Sample.chain, ho]
  unblinds o key' _ := by
    by_cases ho : o.1.script = [] <;> simp [Wally.unblindOutput, Sample.wally, Sample.chain, ho]
  committed o key' found _ hfound := by
    by_cases ho : o.1.script = []
    · simp [Wally.unblindOutput, Sample.wally, ho] at hfound
    · simp only [Wally.unblindOutput, Sample.wally, ho, if_false, Option.some.injEq] at hfound
      exact hfound.symm

/-- The sample PSET is signed, whatever the amounts, as long as one is sent. -/
theorem sample_signed (hs : assetBytes psbtInfo.sendAsset = some send)
    (hr : assetBytes psbtInfo.recvAsset = some recv) (hlen : recv.length = 32)
    (hsend : IsI64 psbtInfo.sendAmount) (hzero : psbtInfo.sendAmount ≠ 0) :
    signPsbt (Sample.wally psbtInfo send recv) (some []) psbtInfo [Sample.utxo psbtInfo] ""
      = .ok "signed" := by
  -- the amount to send is a positive number of 64 bits
  have hsend' : asU64 psbtInfo.sendAmount ≠ 0 := by
    unfold IsI64 at hsend
    unfold asU64
    omega
  have hlt : asU64 psbtInfo.sendAmount < 18446744073709551616 := asU64_lt _
  have hlt' : asU64 psbtInfo.recvAmount < 18446744073709551616 := asU64_lt _
  -- the outputs are checked and counted
  have hout : checkOutputs (Sample.wally psbtInfo send recv) [] send recv
      (Sample.pset send recv).bothOutputs = .ok ⟨1, asU64 psbtInfo.recvAmount, 0⟩ := by
    simp [checkOutputs, Psbt.bothOutputs, Sample.pset, Sample.wally, checkOutput, checkScriptOutput,
      countOutput, countOwned, checkCommitments, Wally.unblindOutput, Output.asset, assetCtLen,
      hlen, hlt']
  -- and so is the one input
  have hin : checkInputs (Sample.wally psbtInfo send recv) (Sample.pset send recv)
      [Sample.utxo psbtInfo] send (Sample.pset send recv).bothInputs
        = .ok ⟨asU64 psbtInfo.sendAmount, [(0, [])]⟩ := by
    simp [checkInputs, Psbt.bothInputs, Sample.pset, Sample.wally, Sample.utxo, checkInput,
      Input.utxo, hexEncode, hlt]
  have hdecode : (Sample.wally psbtInfo send recv).psbtFromBase64 ""
      = some (Sample.pset send recv) := rfl
  simp only [signPsbt, bind_eq_ok, unwrap_eq_ok, okOr_eq_ok, ensure_eq_ok, decide_eq_true_eq]
  exact ⟨[], rfl, send, hs, recv, hr, "", by simp, _, hdecode, (), rfl, (), rfl, _, hout, (),
    Nat.one_ne_zero, _, hin, (), Nat.pos_of_ne_zero hsend', (), Nat.sub_zero _, (), rfl, rfl⟩

end Forged

/-- Only amounts that are not negative, or nothing to send, keep the sample PSET exact. -/
theorem nonneg_of_signsExactly (psbtInfo : PsbtInfo) {send recv : Bytes}
    (hs : assetBytes psbtInfo.sendAsset = some send)
    (hr : assetBytes psbtInfo.recvAsset = some recv) (hlen : recv.length = 32)
    (hsend : IsI64 psbtInfo.sendAmount) (hexact : SignsExactly psbtInfo) :
    psbtInfo.sendAmount = 0 ∨ 0 < psbtInfo.sendAmount ∧ 0 ≤ psbtInfo.recvAmount := by
  by_cases hzero : psbtInfo.sendAmount = 0
  · exact .inl hzero
  · have hsigned := sample_signed hs hr hlen hsend hzero
    have hv := hexact (Sample.wally psbtInfo send recv) (some []) (Sample.chain psbtInfo send recv)
      [Sample.utxo psbtInfo] "" (Sample.pset send recv) send recv "signed"
      (fun key _ => sample_faithful key) rfl hs hr
      (by simp [Psbt.bothInputs, Sample.pset, Sample.chain]) hsigned
    refine .inr ⟨hv.positive, ?_⟩
    rw [← hv.received]
    exact Int.natCast_nonneg _

/-! ### Exactly when -/

/-- With two different assets, `signPsbt` signs exactly what was agreed, whatever the PSET, if and
only if neither agreed amount is negative, or nothing is to be sent (and then nothing is signed).
The cast makes a negative amount a huge one, which a PSET can meet. -/
theorem signPsbt_valueExact_iff (psbtInfo : PsbtInfo) (send recv : Bytes)
    (sendId : assetBytes psbtInfo.sendAsset = some send)
    (recvId : assetBytes psbtInfo.recvAsset = some recv) (recvLength : recv.length = 32)
    (differ : send ≠ recv)
    (range : IsI64 psbtInfo.sendAmount ∧ IsI64 psbtInfo.recvAmount) :
    SignsExactly psbtInfo
      ↔ psbtInfo.sendAmount = 0 ∨ 0 < psbtInfo.sendAmount ∧ 0 ≤ psbtInfo.recvAmount := by
  constructor
  · exact nonneg_of_signsExactly psbtInfo sendId recvId recvLength range.1
  · apply signsExactly_of_nonneg _ range.1 range.2
    rw [sendId, recvId]
    exact fun h => differ (Option.some.inj h)

namespace Sample

def gold : AssetId := ⟨"00000000000000000000000000000000000000000000000000000000000000a1"⟩

def silver : AssetId := ⟨"00000000000000000000000000000000000000000000000000000000000000B2"⟩

theorem assetBytes_gold : assetBytes gold = some (0xa1 :: List.replicate 31 0) := by
  decide +kernel

theorem assetBytes_silver : assetBytes silver = some (0xb2 :: List.replicate 31 0) := by
  decide +kernel

end Sample

/-- Ordinary amounts: what is signed takes 5 and pays 7. -/
theorem signPsbt_valueExact_five_seven :
    SignsExactly ⟨Sample.gold, Sample.silver, 5, 7⟩ ↔ (5 : ℤ) = 0 ∨ (0 : ℤ) < 5 ∧ (0 : ℤ) ≤ 7 :=
  signPsbt_valueExact_iff ⟨Sample.gold, Sample.silver, 5, 7⟩ _ _ Sample.assetBytes_gold
    Sample.assetBytes_silver (by decide) (by decide) (by decide)

/-- An agreement to send -1 is met by a PSET that takes 2⁶⁴ - 1 from the wallet. -/
theorem signPsbt_negative_amount :
    ¬ ∀ psbtInfo : PsbtInfo, assetBytes psbtInfo.sendAsset ≠ assetBytes psbtInfo.recvAsset →
      IsI64 psbtInfo.sendAmount ∧ IsI64 psbtInfo.recvAmount → SignsExactly psbtInfo := by
  intro hall
  have hexact : SignsExactly ⟨Sample.gold, Sample.silver, -1, 1⟩ := by
    apply hall
    · rw [Sample.assetBytes_gold, Sample.assetBytes_silver]
      decide
    · decide
  have hpos := nonneg_of_signsExactly ⟨Sample.gold, Sample.silver, -1, 1⟩
    Sample.assetBytes_gold Sample.assetBytes_silver (by decide) (by decide) hexact
  exact absurd hpos (by decide)

end SideSwap.Libwally
