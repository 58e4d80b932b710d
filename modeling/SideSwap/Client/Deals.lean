import SideSwap.Client.Mirror
import SideSwap.Client.SignOnce

/-!
# Deals and their reports

When a deal is done, an instant swap or an order, the server sends the id of its transaction.  The
success is reported to the user by the comparison of the transaction list that finds the transaction
new or changed: at once for an instant swap, and through a queue that waits for reviews for an
order.

`unlisted` are the deals whose transaction no comparison has listed since.  `SuccessReported` says
that the others were reported exactly once, and `DealKept` which events leave the deals alone: in
particular the first comparison that lists a transaction finds it changed.  `DealsInv` is the
invariant that leads from one to the other, with one lemma for each step; the module `Successes`
proves it of the worker.
-/

namespace SideSwap.Client

open History

/-! ### The deals of a process -/

/-- The history of this process. -/
def thisLife : List Event → List Event
  | [] => []
  | .started :: _ => []
  | e :: older => e :: thisLife older

/-- The transaction of a deal. -/
def Completion.txid : Completion → String
  | .swap _ txid | .order _ txid => txid

/-- The deal is an instant swap. -/
def Completion.isSwap : Completion → Bool
  | .swap .. => true
  | .order .. => false

/-- The deal is one of the order. -/
def Completion.isOf (X : OrderId) : Completion → Bool
  | .swap .. => false
  | .order Y _ => decide (Y = X)

/-- Orders that are different have different transactions, and an order has one. -/
def Completion.fits (X : OrderId) (txid : String) : Completion → Bool
  | .swap .. => true
  | .order Y t => decide (Y = X ↔ t = txid)

/-- The deals that are done. -/
def deals : List Event → List Completion
  | [] => []
  | .completed d :: older => d :: deals older
  | _ :: older => deals older

/-- The deals that are done and whose transaction no comparison has listed since. -/
def unlisted : List Event → List Completion
  | [] => []
  | .completed d :: older => if d ∈ deals older then unlisted older else d :: unlisted older
  | .synced list :: older => (unlisted older).filter fun d => !list.contains d.txid
  | _ :: older => unlisted older

/-- The success of an instant swap is reported.  The items of pegs are reported in the same way. -/
def Event.reportsSwap (txid : String) : Event → Bool
  | .toUi (.swapSucceed item) => decide (item.id = txid) && !item.isPeg
  | _ => false

/-- The success of an order is reported. -/
def Event.reportsOrder (txid : String) : Event → Bool
  | .toUi (.submitResult (.swapSucceed item)) => decide (item.id = txid)
  | _ => false

/-- The reports of a deal in this process, those in the queue included. -/
def successes (w : World) : Completion → ℕ
  | .swap _ txid => (thisLife w.log).countP (Event.reportsSwap txid)
  | .order _ txid => (thisLife w.log).countP (Event.reportsOrder txid)
      + w.data.pendingSucceed.countP fun item => decide (item.id = txid)

/-- Every deal whose transaction was listed has been reported exactly once. -/
def SuccessReported (w : World) : Prop :=
  ∀ d ∈ deals (thisLife w.log), d ∉ unlisted (thisLife w.log) → successes w d = 1

instance (w : World) : Decidable (SuccessReported w) :=
  inferInstanceAs (Decidable (∀ d ∈ _, _))

/-- The deals that are not listed are left alone.  An instant swap is done when no other waits, with
the id of a new transaction; an order is done with one transaction, and no other order with the
same.  The first comparison that lists a transaction finds it changed.  There is neither a login nor
a logout while an instant swap waits, and an order that waits is neither cancelled nor submitted
again. -/
def keepsDeals (life : List Event) (listed : Map String TransItem) : Event → Bool
  | .completed (.swap _ txid) =>
    (unlisted life).all (fun d => !d.isSwap) && !txid.toList.contains '/' &&
      (deals life).all fun d => !d.isSwap || decide (d.txid ≠ txid)
  | .completed (.order X txid) => (deals life).all (Completion.fits X txid)
  | .synced list => (unlisted life).all fun d =>
    !list.contains d.txid || decide (list[d.txid]? ≠ listed[d.txid]?)
  | .received (.ui (.login ..)) | .received (.ui .logout) => (unlisted life).all fun d => !d.isSwap
  | .received (.serverNotification (.complete ⟨X, none⟩)) =>
    (unlisted life).all fun d => !d.isOf X
  | .stored s => (unlisted life).all fun d => !d.isOf s.orderId
  | _ => true

/-- A success that is told belongs to a deal that was done. -/
def DealKept (e : Event) (older : List Event) : Prop :=
  keepsDeals (thisLife older) (lastSynced older) e = true

instance (e : Event) (older : List Event) : Decidable (DealKept e older) :=
  inferInstanceAs (Decidable (_ = true))

/-! ### The invariant -/

/-- What the invariant is about: the deals, the slot of the instant swap, the stored deals of the
orders, the orders that were reported, and the numbers of reports. -/
structure DealView where
  deals : List Completion
  unlisted : List Completion
  slot : Option String
  terms : OrderId → Option (OrderId × Option String)
  shown : Finset OrderId
  swaps : String → ℕ
  orders : String → ℕ

/-- What the results depend on. -/
def World.dealView (w : World) : DealView :=
  { deals := deals (thisLife w.log), unlisted := unlisted (thisLife w.log)
    slot := w.data.ctx.bind Context.succeedSwap
    terms := fun X => w.data.submitData[X]?.map SubmitData.deal
    shown := w.data.shownSucceed
    swaps := fun txid => (thisLife w.log).countP (Event.reportsSwap txid)
    orders := fun txid => (thisLife w.log).countP (Event.reportsOrder txid)
      + w.data.pendingSucceed.countP fun item => decide (item.id = txid) }

/-- The reports of instant swaps. -/
structure SwapInv (v : DealView) : Prop where
  /-- the slot holds the instant swap that waits -/
  slot : ∀ txid, v.slot = some txid ↔ ∃ X, .swap X txid ∈ v.unlisted
  plain : ∀ X txid, .swap X txid ∈ v.deals → txid.toList.contains '/' = false
  single : ∀ X Y txid, .swap X txid ∈ v.deals → .swap Y txid ∈ v.deals → X = Y
  waits : ∀ X txid, .swap X txid ∈ v.unlisted → v.swaps txid = 0
  reported : ∀ X txid, .swap X txid ∈ v.deals → .swap X txid ∉ v.unlisted → v.swaps txid = 1
  other : ∀ txid, (∀ X, .swap X txid ∉ v.deals) → txid.toList.contains '/' = false → v.swaps txid = 0

/-- The reports of orders. -/
structure OrderInv (v : DealView) : Prop where
  /-- the orders that wait have their transaction in their terms -/
  stored : ∀ X txid, .order X txid ∈ v.unlisted → v.terms X = some (X, some txid)
  keyed : ∀ X Y txid, v.terms X = some (Y, txid) → Y = X
  done : ∀ X Y txid, v.terms X = some (Y, some txid) → .order X txid ∈ v.deals
  shown : ∀ X, X ∈ v.shown ↔ ∃ txid, .order X txid ∈ v.deals ∧ .order X txid ∉ v.unlisted
  fits : ∀ X Y t u, .order X t ∈ v.deals → .order Y u ∈ v.deals → (X = Y ↔ t = u)
  waits : ∀ X txid, .order X txid ∈ v.unlisted → v.orders txid = 0
  reported : ∀ X txid, .order X txid ∈ v.deals → .order X txid ∉ v.unlisted → v.orders txid = 1
  other : ∀ txid, (∀ X, .order X txid ∉ v.deals) → v.orders txid = 0

/-- The waiting results belong to deals that are done, each once. -/
structure DealsInv (v : DealView) : Prop where
  known : ∀ d ∈ v.unlisted, d ∈ v.deals
  swap : SwapInv v
  order : OrderInv v

/-- The invariant is what is claimed of a state. -/
theorem DealsInv.successReported {w : World} (hw : DealsInv w.dealView) : SuccessReported w := by
  intro d hd hlisted
  cases d with
  | swap X txid => exact hw.swap.reported X txid hd hlisted
  | order X txid => exact hw.order.reported X txid hd hlisted

/-! ### Steps of the view -/

section Steps

variable {v v' : DealView} {X : OrderId} {txid : String}

/-- A step of orders leaves instant swaps alone. -/
theorem SwapInv.congr (hv : SwapInv v) (hdeals : ∀ X t, .swap X t ∈ v'.deals ↔ .swap X t ∈ v.deals)
    (hunlisted : ∀ X t, .swap X t ∈ v'.unlisted ↔ .swap X t ∈ v.unlisted) (hslot : v'.slot = v.slot)
    (hswaps : v'.swaps = v.swaps) : SwapInv v' := by
  refine ⟨?_, ?_, ?_, ?_, ?_, ?_⟩ <;> simp only [hdeals, hunlisted, hslot, hswaps]
  · exact hv.slot
  · exact hv.plain
  · exact hv.single
  · exact hv.waits
  · exact hv.reported
  · exact hv.other

/-- A step of instant swaps leaves orders alone. -/
theorem OrderInv.congr (hv : OrderInv v) (hdeals : ∀ X t, .order X t ∈ v'.deals ↔ .order X t ∈ v.deals)
    (hunlisted : ∀ X t, .order X t ∈ v'.unlisted ↔ .order X t ∈ v.unlisted)
    (hterms : v'.terms = v.terms) (hshown : v'.shown = v.shown) (horders : v'.orders = v.orders) :
    OrderInv v' := by
  refine ⟨?_, ?_, ?_, ?_, ?_, ?_, ?_, ?_⟩ <;>
    simp only [hdeals, hunlisted, hterms, hshown, horders]
  · exact hv.stored
  · exact hv.keyed
  · exact hv.done
  · exact hv.shown
  · exact hv.fits
  · exact hv.waits
  · exact hv.reported
  · exact hv.other

/-- Nothing has been done. -/
theorem DealsInv.empty : DealsInv
    { deals := [], unlisted := [], slot := none, terms := fun _ => none, shown := ∅
      swaps := fun _ => 0, orders := fun _ => 0 } := by
  refine ⟨by simp, ?_, ?_⟩ <;> constructor <;> simp

/-- The terms of orders that do not wait are replaced by such without a transaction, or
forgotten. -/
theorem DealsInv.retermed (hv : DealsInv v) {terms : OrderId → Option (OrderId × Option String)}
    (hterms : ∀ X, terms X = v.terms X
      ∨ (∀ txid, .order X txid ∉ v.unlisted) ∧ (terms X = none ∨ terms X = some (X, none))) :
    DealsInv { v with terms := terms } := by
  refine ⟨hv.known, { hv.swap with }, { hv.order with stored := ?_, keyed := ?_, done := ?_ }⟩
  · intro X txid hX
    rcases hterms X with hsame | ⟨hfree, -⟩
    · exact hsame.trans (hv.order.stored X txid hX)
    · exact absurd hX (hfree txid)
  · intro X Y txid hX
    rcases hterms X with hsame | ⟨-, hnone | hsome⟩
    · exact hv.order.keyed X Y txid (hsame.symm.trans hX)
    · cases hnone.symm.trans hX
    · cases hsome.symm.trans hX
      rfl
  · intro X Y txid hX
    rcases hterms X with hsame | ⟨-, hnone | hsome⟩
    · exact hv.order.done X Y txid (hsame.symm.trans hX)
    · cases hnone.symm.trans hX
    · cases hsome.symm.trans hX

theorem not_mem_of_all_orders (hfree : v.unlisted.all (fun d => !d.isSwap) = true) :
    .swap X txid ∉ v.unlisted := by
  intro hX
  have hswap := List.all_eq_true.mp hfree _ hX
  cases hswap

/-- The wallet is left while no instant swap waits. -/
theorem DealsInv.cleared (hv : DealsInv v) (hfree : v.unlisted.all (fun d => !d.isSwap) = true) :
    DealsInv { v with slot := none } := by
  refine ⟨hv.known, { hv.swap with slot := fun txid => ?_ }, { hv.order with }⟩
  refine ⟨fun hnone => (by cases hnone), ?_⟩
  rintro ⟨X, hX⟩
  exact absurd hX (not_mem_of_all_orders hfree)

/-- An instant swap is done. -/
theorem DealsInv.swapped (hv : DealsInv v) (hfree : v.unlisted.all (fun d => !d.isSwap) = true)
    (hplain : txid.toList.contains '/' = false) (hnew : ∀ Y, .swap Y txid ∉ v.deals) :
    DealsInv { v with
      deals := .swap X txid :: v.deals, unlisted := .swap X txid :: v.unlisted, slot := some txid } := by
  -- the new swap is the only one that waits
  have hnone : ∀ Y t, .swap Y t ∉ v.unlisted := fun Y t => not_mem_of_all_orders hfree
  have hwaits : ∀ Y t, .swap Y t ∈ .swap X txid :: v.unlisted ↔ Y = X ∧ t = txid := by
    intro Y t
    simp [hnone Y t]
  refine ⟨?_, ⟨?_, ?_, ?_, ?_, ?_, ?_⟩, hv.order.congr (by simp) (by simp) rfl rfl rfl⟩
  · intro d hd
    rcases List.mem_cons.mp hd with rfl | hd
    · exact List.mem_cons_self
    · exact List.mem_cons_of_mem _ (hv.known d hd)
  · intro t
    simp only [hwaits, Option.some.injEq]
    exact ⟨fun ht => ⟨X, rfl, ht.symm⟩, fun ⟨_, _, ht⟩ => ht.symm⟩
  · intro Y t hY
    rcases List.mem_cons.mp hY with heq | hY
    · cases heq
      exact hplain
    · exact hv.swap.plain Y t hY
  · intro Y Z t hY hZ
    rcases List.mem_cons.mp hY with heq | hY <;> rcases List.mem_cons.mp hZ with heq' | hZ
    · cases heq
      cases heq'
      rfl
    · cases heq
      exact absurd hZ (hnew Z)
    · cases heq'
      exact absurd hY (hnew Y)
    · exact hv.swap.single Y Z t hY hZ
  · intro Y t hY
    obtain ⟨rfl, rfl⟩ := (hwaits Y t).mp hY
    exact hv.swap.other t hnew hplain
  · intro Y t hY hlisted
    rcases List.mem_cons.mp hY with heq | hY
    · cases heq
      exact absurd List.mem_cons_self hlisted
    · exact hv.swap.reported Y t hY (hnone Y t)
  · intro t hnot
    exact hv.swap.other t fun Y hY => hnot Y (List.mem_cons_of_mem _ hY)

theorem terms_of_update {terms old : OrderId → Option (OrderId × Option String)}
    (hterms : ∀ Y, terms Y = if X = Y then some (X, some txid) else old Y) {Y : OrderId}
    {p : OrderId × Option String} (hY : terms Y = some p) :
    X = Y ∧ p = (X, some txid) ∨ old Y = some p := by
  rw [hterms] at hY
  split at hY
  · next heq => exact .inl ⟨heq, (Option.some.inj hY).symm⟩
  · exact .inr hY

/-- The deal of an order is told once more. -/
theorem DealsInv.repeated (hv : DealsInv v) (hd : .order X txid ∈ v.deals)
    {terms : OrderId → Option (OrderId × Option String)}
    (hterms : ∀ Y, terms Y = if X = Y then some (X, some txid) else v.terms Y) :
    DealsInv { v with deals := .order X txid :: v.deals, terms := terms } := by
  -- the deal is in the list already
  have hdeals : ∀ d, d ∈ Completion.order X txid :: v.deals ↔ d ∈ v.deals := by
    intro d
    refine ⟨fun h => ?_, List.mem_cons_of_mem _⟩
    rcases List.mem_cons.mp h with rfl | h
    · exact hd
    · exact h
  refine ⟨fun d h => (hdeals d).mpr (hv.known d h), hv.swap.congr (by simp) (by simp) rfl rfl, ?_⟩
  -- the conditions do not ask how often a deal occurs
  have hsame : OrderInv { v with deals := .order X txid :: v.deals } :=
    hv.order.congr (fun Y t => hdeals _) (fun Y t => Iff.rfl) rfl rfl rfl
  refine { hsame with stored := ?_, keyed := ?_, done := ?_ }
  · -- the terms are stored with the same transaction as before
    intro Y t hY
    show terms Y = some (Y, some t)
    rw [hterms]
    split
    · next heq =>
      subst heq
      rw [(hv.order.fits X X txid t hd (hv.known _ hY)).mp rfl]
    · exact hv.order.stored Y t hY
  · intro Y Z t hY
    rcases terms_of_update hterms hY with ⟨rfl, heq⟩ | hY
    · cases heq
      rfl
    · exact hv.order.keyed Y Z t hY
  · intro Y Z t hY
    rcases terms_of_update hterms hY with ⟨rfl, heq⟩ | hY
    · cases heq
      exact List.mem_cons_self
    · exact List.mem_cons_of_mem _ (hv.order.done Y Z t hY)

/-- The deal of an order is done. -/
theorem DealsInv.completed (hv : DealsInv v) (hnew : .order X txid ∉ v.deals)
    (hfits : ∀ Y t, .order Y t ∈ v.deals → (Y = X ↔ t = txid))
    {terms : OrderId → Option (OrderId × Option String)}
    (hterms : ∀ Y, terms Y = if X = Y then some (X, some txid) else v.terms Y) :
    DealsInv { v with
      deals := .order X txid :: v.deals, unlisted := .order X txid :: v.unlisted, terms := terms } := by
  -- neither the order nor its transaction is in an earlier deal
  have hfirst : ∀ t, .order X t ∉ v.deals := by
    intro t ht
    rw [(hfits X t ht).mp rfl] at ht
    exact hnew ht
  have hother : ∀ Y, .order Y txid ∉ v.deals := by
    intro Y hY
    rw [(hfits Y txid hY).mpr rfl] at hY
    exact hnew hY
  refine ⟨?_, hv.swap.congr (by simp) (by simp) rfl rfl, ⟨?_, ?_, ?_, ?_, ?_, ?_, ?_, ?_⟩⟩
  · intro d hd
    rcases List.mem_cons.mp hd with rfl | hd
    · exact List.mem_cons_self
    · exact List.mem_cons_of_mem _ (hv.known d hd)
  · intro Y t hY
    show terms Y = some (Y, some t)
    rw [hterms]
    rcases List.mem_cons.mp hY with heq | hY
    · cases heq
      rw [if_pos rfl]
    · rw [if_neg]
      · exact hv.order.stored Y t hY
      · rintro rfl
        exact hfirst t (hv.known _ hY)
  · intro Y Z t hY
    rcases terms_of_update hterms hY with ⟨rfl, heq⟩ | hY
    · cases heq
      rfl
    · exact hv.order.keyed Y Z t hY
  · intro Y Z t hY
    rcases terms_of_update hterms hY with ⟨rfl, heq⟩ | hY
    · cases heq
      exact List.mem_cons_self
    · exact List.mem_cons_of_mem _ (hv.order.done Y Z t hY)
  · intro Y
    refine (hv.order.shown Y).trans ⟨?_, ?_⟩
    · rintro ⟨t, ht, hlisted⟩
      refine ⟨t, List.mem_cons_of_mem _ ht, fun hmem => ?_⟩
      rcases List.mem_cons.mp hmem with heq | hmem
      · cases heq
        exact hnew ht
      · exact hlisted hmem
    · rintro ⟨t, ht, hlisted⟩
      rcases List.mem_cons.mp ht with heq | ht
      · cases heq
        exact absurd List.mem_cons_self hlisted
      · exact ⟨t, ht, fun hmem => hlisted (List.mem_cons_of_mem _ hmem)⟩
  · intro Y Z t u hY hZ
    rcases List.mem_cons.mp hY with heq | hY <;> rcases List.mem_cons.mp hZ with heq' | hZ
    · cases heq
      cases heq'
      simp
    · cases heq
      rw [eq_comm, hfits Z u hZ, eq_comm]
    · cases heq'
      exact hfits Y t hY
    · exact hv.order.fits Y Z t u hY hZ
  · intro Y t hY
    rcases List.mem_cons.mp hY with heq | hY
    · cases heq
      exact hv.order.other txid hother
    · exact hv.order.waits Y t hY
  · intro Y t hY hlisted
    rcases List.mem_cons.mp hY with heq | hY
    · cases heq
      exact absurd List.mem_cons_self hlisted
    · exact hv.order.reported Y t hY fun hmem => hlisted (List.mem_cons_of_mem _ hmem)
  · intro t hnot
    exact hv.order.other t fun Y hY => hnot Y (List.mem_cons_of_mem _ hY)

/-! ### An item of a comparison -/

/-- The deals that wait for another transaction. -/
def unlistedBut (l : List Completion) (txid : String) : List Completion :=
  l.filter fun d => decide (d.txid ≠ txid)

theorem mem_unlistedBut {d : Completion} {l : List Completion} :
    d ∈ unlistedBut l txid ↔ d ∈ l ∧ d.txid ≠ txid := by
  rw [unlistedBut, List.mem_filter, decide_eq_true_eq]

/-- The transaction of the instant swap that waits is reported. -/
theorem SwapInv.listed (hv : SwapInv v) (hknown : ∀ d ∈ v.unlisted, d ∈ v.deals)
    (hunlisted : v'.unlisted = unlistedBut v.unlisted txid) (hdeals : v'.deals = v.deals)
    (hslot : v'.slot = if v.slot = some txid then none else v.slot)
    (hswaps : ∀ t, v'.swaps t = v.swaps t + if v.slot = some txid ∧ t = txid then 1 else 0) :
    SwapInv v' := by
  have hmem : ∀ Y t, .swap Y t ∈ v'.unlisted ↔ .swap Y t ∈ v.unlisted ∧ t ≠ txid := by
    intro Y t
    rw [hunlisted, mem_unlistedBut]
    rfl
  have hslot' : ∀ t, v'.slot = some t ↔ v.slot = some t ∧ t ≠ txid := by
    intro t
    rw [hslot]
    split
    · next heq => simp [heq, eq_comm]
    · next hne =>
      refine ⟨fun ht => ⟨ht, ?_⟩, fun ht => ht.1⟩
      rintro rfl
      exact hne ht
  refine ⟨?_, ?_, ?_, ?_, ?_, ?_⟩
  · intro t
    rw [hslot', hv.slot]
    simp only [hmem]
    exact ⟨fun ⟨⟨Y, hY⟩, ht⟩ => ⟨Y, hY, ht⟩, fun ⟨Y, hY, ht⟩ => ⟨⟨Y, hY⟩, ht⟩⟩
  · rw [hdeals]
    exact hv.plain
  · rw [hdeals]
    exact hv.single
  · intro Y t hY
    obtain ⟨hY, hne⟩ := (hmem Y t).mp hY
    rw [hswaps, hv.waits Y t hY, if_neg fun hboth => hne hboth.2]
  · intro Y t hY hlisted
    rw [hdeals] at hY
    rw [hswaps]
    -- a swap that has waited is reported now, one that has not was reported before
    by_cases hwaits : .swap Y t ∈ v.unlisted
    · obtain rfl : t = txid := not_not.mp fun hne => hlisted ((hmem Y t).mpr ⟨hwaits, hne⟩)
      rw [hv.waits Y t hwaits, if_pos ⟨(hv.slot t).mpr ⟨Y, hwaits⟩, rfl⟩]
    · rw [hv.reported Y t hY hwaits, if_neg]
      rintro ⟨hslot, rfl⟩
      obtain ⟨Z, hZ⟩ := (hv.slot t).mp hslot
      rw [hv.single Y Z t hY (hknown _ hZ)] at hwaits
      exact hwaits hZ
  · intro t hnot hplain
    rw [hdeals] at hnot
    rw [hswaps, hv.other t hnot hplain, if_neg]
    rintro ⟨hslot, rfl⟩
    obtain ⟨Z, hZ⟩ := (hv.slot t).mp hslot
    exact hnot Z (hknown _ hZ)

/-- The transaction of an order that waits is reported. -/
theorem OrderInv.listed (hv : OrderInv v) (hunlisted : v'.unlisted = unlistedBut v.unlisted txid)
    (hdeals : v'.deals = v.deals) (hterms : v'.terms = v.terms)
    (hfound : v.terms X = some (X, some txid)) (hnew : X ∉ v.shown)
    (hshown : v'.shown = insert X v.shown)
    (horders : ∀ t, v'.orders t = v.orders t + if t = txid then 1 else 0) : OrderInv v' := by
  have hmem : ∀ Y t, .order Y t ∈ v'.unlisted ↔ .order Y t ∈ v.unlisted ∧ t ≠ txid := by
    intro Y t
    rw [hunlisted, mem_unlistedBut]
    rfl
  have hdone : .order X txid ∈ v.deals := hv.done X X txid hfound
  -- an order that is not shown yet has waited until now
  have hwaits : .order X txid ∈ v.unlisted := by
    by_contra hlisted
    exact hnew ((hv.shown X).mpr ⟨txid, hdone, hlisted⟩)
  refine ⟨?_, ?_, ?_, ?_, ?_, ?_, ?_, ?_⟩
  · intro Y t hY
    rw [hterms]
    exact hv.stored Y t ((hmem Y t).mp hY).1
  · rw [hterms]
    exact hv.keyed
  · rw [hterms, hdeals]
    exact hv.done
  · intro Y
    rw [hshown, hdeals, Finset.mem_insert, hv.shown Y]
    simp only [hmem]
    constructor
    · rintro (rfl | ⟨t, ht, hlisted⟩)
      · exact ⟨txid, hdone, fun h => h.2 rfl⟩
      · exact ⟨t, ht, fun h => hlisted h.1⟩
    · rintro ⟨t, ht, hlisted⟩
      by_cases hmem' : .order Y t ∈ v.unlisted
      · obtain rfl : t = txid := not_not.mp fun hne => hlisted ⟨hmem', hne⟩
        exact .inl ((hv.fits Y X t t ht hdone).mpr rfl)
      · exact .inr ⟨t, ht, hmem'⟩
  · rw [hdeals]
    exact hv.fits
  · intro Y t hY
    obtain ⟨hY, hne⟩ := (hmem Y t).mp hY
    rw [horders, hv.waits Y t hY, if_neg hne]
  · intro Y t hY hlisted
    rw [hdeals] at hY
    rw [horders]
    by_cases hmem' : .order Y t ∈ v.unlisted
    · obtain rfl : t = txid := not_not.mp fun hne => hlisted ((hmem Y t).mpr ⟨hmem', hne⟩)
      rw [hv.waits Y t hmem', if_pos rfl]
    · rw [hv.reported Y t hY hmem', if_neg]
      rintro rfl
      rw [(hv.fits Y X t t hY hdone).mpr rfl] at hmem'
      exact hmem' hwaits
  · intro t hnot
    rw [hdeals] at hnot
    rw [horders, hv.other t hnot, if_neg]
    rintro rfl
    exact hnot X hdone

/-- If the orders with a transaction were reported, none waits for it. -/
theorem OrderInv.listed_before (hv : OrderInv v) (hknown : ∀ d ∈ v.unlisted, d ∈ v.deals)
    (hshown : ∀ X, v.terms X = some (X, some txid) → X ∈ v.shown) : .order X txid ∉ v.unlisted := by
  intro hX
  obtain ⟨t, ht, hlisted⟩ := (hv.shown X).mp (hshown X (hv.stored X txid hX))
  rw [(hv.fits X X t txid ht (hknown _ hX)).mp rfl] at hlisted
  exact hlisted hX

end Steps

end SideSwap.Client
