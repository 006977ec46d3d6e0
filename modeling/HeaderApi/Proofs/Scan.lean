import HeaderApi.Proofs.Text.Parts
import HeaderApi.Scan.Report
import Mathlib.Data.List.Forall2

/-!
# Scans that go on

A scan that takes one step after the other, and fails at none of them, has a result.  If it has a
result, then what each step keeps holds at the end (`foldlM_induction`).  If it has none, then it
is the first step that fails which says why (`foldlM_eq_error_iff`).
-/

namespace HeaderApi.Scan

variable {σ σ' ξ ξ' ι α α' β β' : Type}

/-! ## Scans that give a result -/

theorem bind_ok_iff {x : Scan α} {f : α → Scan β} {b : β} :
    (x >>= f).result = .ok b ↔ ∃ a, x.result = .ok a ∧ (f a).result = .ok b := by
  obtain ⟨result, ds, ns⟩ := x
  cases result <;> simp

theorem bind_error_iff {x : Scan α} {f : α → Scan β} {e : ScanError} :
    (x >>= f).result = .error e ↔
      x.result = .error e ∨ ∃ a, x.result = .ok a ∧ (f a).result = .error e := by
  obtain ⟨result, ds, ns⟩ := x
  cases result <;> simp

theorem result_eq_ok_of_mem {x : Scan α} {a : α} (h : a ∈ x.result.toOption) :
    x.result = .ok a := by
  obtain ⟨result, ds, ns⟩ := x
  cases result with
  | error e => cases h
  | ok b =>
    cases h
    rfl

theorem result_eq_error_of_map {x : Scan α} {f : α → β} {e : ScanError}
    (h : x.result.map f = .error e) : x.result = .error e := by
  obtain ⟨result, ds, ns⟩ := x
  cases result with
  | error e' =>
    cases h
    rfl
  | ok a => cases h

theorem diagnostics_bind {x : Scan α} {a : α} (h : x.result = .ok a) (f : α → Scan β) :
    (x >>= f).diagnostics = x.diagnostics ++ (f a).diagnostics := by
  obtain ⟨result, ds, ns⟩ := x
  obtain rfl : result = .ok a := h
  rfl

/-- What a run has done, its state and its reports keep an invariant of the steps. -/
theorem foldlM_induction {step : σ → ξ → Scan σ} (inv : List ξ → σ → List Diagnostic → Prop)
    {xs : List ξ} {s s' : σ} (h : (xs.foldlM step s).result = .ok s') (hs : inv [] s [])
    (hstep : ∀ done x s s' ds, inv done s ds → (step s x).result = .ok s' →
      inv (done ++ [x]) s' (ds ++ (step s x).diagnostics)) :
    inv xs s' (xs.foldlM step s).diagnostics := by
  suffices hrun : ∀ {rest done : List ξ} {s : σ} {ds : List Diagnostic}, inv done s ds →
      (rest.foldlM step s).result = .ok s' →
        inv (done ++ rest) s' (ds ++ (rest.foldlM step s).diagnostics) from hrun hs h
  intro rest done s ds hdone hrest
  induction rest generalizing done s ds with
  | nil =>
    obtain rfl : s = s' := by simpa using hrest
    simpa using hdone
  | cons x rest ih =>
    rw [List.foldlM_cons] at hrest ⊢
    obtain ⟨mid, hmid, hrest⟩ := bind_ok_iff.1 hrest
    rw [diagnostics_bind hmid]
    simpa using ih (hstep done x s mid ds hdone hmid) hrest

/-- A run fails at the first item for which a step fails, if what a step keeps decides whether and
how the next one fails. -/
theorem foldlM_eq_error_iff {step : σ → ξ → Scan σ} {inv : σ → Prop} {fails : ξ → ScanError → Prop}
    {xs : List ξ} {s : σ} {e : ScanError}
    (hkeep : ∀ s x s', inv s → (step s x).result = .ok s' → inv s')
    (hfails : ∀ s x e, inv s → ((step s x).result = .error e ↔ fails x e)) (hs : inv s) :
    (xs.foldlM step s).result = .error e ↔ ∃ before x after, xs = before ++ x :: after ∧
      (∀ y ∈ before, ¬ ∃ e, fails y e) ∧ fails x e := by
  induction xs generalizing s with
  | nil => simp
  | cons x xs ih =>
    rw [List.foldlM_cons, bind_error_iff, Text.exists_first_cons_iff, hfails s x e hs]
    apply or_congr Iff.rfl
    cases hx : (step s x).result with
    | ok s' =>
      have hfine : ¬ ∃ e, fails x e := by
        rintro ⟨e, he⟩
        rw [(hfails s x e hs).2 he] at hx
        cases hx
      simpa [hfine] using ih (hkeep s x s' hs hx)
    | error e' =>
      have hfails' : ∃ e, fails x e := ⟨e', (hfails s x e' hs).1 hx⟩
      simp only [reduceCtorEq, false_and, exists_false, hfails', not_true_eq_false]

/-- Runs whose steps are equal for each item are equal. -/
theorem foldlM_congr {step step' : σ → ξ → Scan σ} {xs : List ξ}
    (h : ∀ x ∈ xs, ∀ s, step s x = step' s x) (s : σ) : xs.foldlM step s = xs.foldlM step' s := by
  induction xs generalizing s with
  | nil => rfl
  | cons x xs ih =>
    rw [List.forall_mem_cons] at h
    simp only [List.foldlM_cons, h.1, ih h.2]

/-- What holds of all reports of a scan and of the one that goes on from it. -/
theorem forall_diagnostics_bind {P : Diagnostic → Prop} {x : Scan α} {f : α → Scan β}
    (hx : ∀ r ∈ x.diagnostics, P r) (hf : ∀ a, ∀ r ∈ (f a).diagnostics, P r) :
    ∀ r ∈ (x >>= f).diagnostics, P r := by
  obtain ⟨result, ds, ns⟩ := x
  cases result with
  | error e => exact hx
  | ok a => exact List.forall_mem_append.2 ⟨hx, hf a⟩

theorem forall_diagnostics_foldlM {P : Diagnostic → Prop} {step : σ → ξ → Scan σ}
    (hstep : ∀ s x, ∀ r ∈ (step s x).diagnostics, P r) (xs : List ξ) (s : σ) :
    ∀ r ∈ (xs.foldlM step s).diagnostics, P r := by
  induction xs generalizing s with
  | nil => simp
  | cons x xs ih =>
    rw [List.foldlM_cons]
    exact forall_diagnostics_bind (hstep s x) ih

/-! ## Scans in step with each other -/

/-- If the one scan gives a result, the other one gives a result that corresponds to it, and what
it reports is translated. -/
def Follows (R : α → α' → Prop) (f : Diagnostic → Diagnostic) (x : Scan α) (x' : Scan α') : Prop :=
  ∀ a, x.result = .ok a →
    ∃ a', x'.result = .ok a' ∧ x'.diagnostics = x.diagnostics.map f ∧ R a a'

section Follows

variable {R : α → α' → Prop} {Q : β → β' → Prop} {f : Diagnostic → Diagnostic}

theorem follows_self (x : Scan α) : Follows (fun a a' => a = a' ∧ x.result = .ok a) id x x :=
  fun a h => ⟨a, h, (List.map_id _).symm, rfl, h⟩

theorem follows_pure {a : α} {a' : α'} (h : R a a') : Follows R f (pure a) (pure a') := by
  intro b hb
  cases hb
  exact ⟨a', rfl, rfl, h⟩

theorem follows_report (ds : List Diagnostic) : Follows Eq f (report ds) (report (ds.map f)) :=
  fun _ _ => ⟨(), rfl, rfl, rfl⟩

theorem follows_note (n n' : Note) : Follows Eq f (note n) (note n') :=
  fun _ _ => ⟨(), rfl, rfl, rfl⟩

theorem follows_fail (e : ScanError) (x' : Scan α') : Follows R f (fail e) x' := by
  intro a h
  cases h

theorem Follows.bind {x : Scan α} {x' : Scan α'} {k : α → Scan β} {k' : α' → Scan β'}
    (h : Follows R f x x') (hk : ∀ a a', R a a' → Follows Q f (k a) (k' a')) :
    Follows Q f (x >>= k) (x' >>= k') := by
  intro b hb
  obtain ⟨a, ha, hb⟩ := bind_ok_iff.1 hb
  obtain ⟨a', ha', hreports, hrelated⟩ := h a ha
  obtain ⟨b', hb', hreports', hrelated'⟩ := hk a a' hrelated b hb
  refine ⟨b', bind_ok_iff.2 ⟨a', ha', hb'⟩, ?_, hrelated'⟩
  rw [diagnostics_bind ha, diagnostics_bind ha', hreports, hreports', List.map_append]

/-- Runs are in step if their steps are. -/
theorem Follows.foldlM {R : σ → σ' → Prop} {about : ξ → ξ' → Prop} {step : σ → ξ → Scan σ}
    {step' : σ' → ξ' → Scan σ'} {xs : List ξ} {xs' : List ξ'} {s : σ} {s' : σ'}
    (hxs : List.Forall₂ about xs xs')
    (hstep : ∀ s s' x x', R s s' → about x x' → Follows R f (step s x) (step' s' x'))
    (hs : R s s') : Follows R f (xs.foldlM step s) (xs'.foldlM step' s') := by
  induction hxs generalizing s s' with
  | nil => exact follows_pure hs
  | @cons x x' xs xs' hx _ ih =>
    rw [List.foldlM_cons, List.foldlM_cons]
    exact (hstep s s' x x' hs hx).bind fun _ _ => ih

/-- Runs over the same items are in step if their steps are, item by item. -/
theorem Follows.foldlM_same {R : σ → σ' → Prop} {step : σ → ξ → Scan σ} {step' : σ' → ξ → Scan σ'}
    {xs : List ξ} {s : σ} {s' : σ'}
    (hstep : ∀ x ∈ xs, ∀ s s', R s s' → Follows R f (step s x) (step' s' x)) (hs : R s s') :
    Follows R f (xs.foldlM step s) (xs.foldlM step' s') := by
  have hxs : List.Forall₂ (fun x x' => x = x' ∧ x ∈ xs) xs xs :=
    List.forall₂_same.2 fun x hx => ⟨rfl, hx⟩
  refine Follows.foldlM hxs ?_ hs
  rintro s s' x _ hs ⟨rfl, hx⟩
  exact hstep x hx s s' hs

end Follows

/-! ## Runs that do not fail -/

/-- What is reported about items, given for each item and those before it. -/
def reportsFrom (reports : List ι → ι → List Diagnostic) : (done rest : List ι) → List Diagnostic
  | _, [] => []
  | done, i :: rest => reports done i ++ reportsFrom reports (done ++ [i]) rest

theorem reportsFrom_eq_nil {reports : List ι → ι → List Diagnostic} {rest done : List ι}
    (h : ∀ before i after, done ++ rest = before ++ i :: after → reports before i = []) :
    reportsFrom reports done rest = [] := by
  induction rest generalizing done with
  | nil => rfl
  | cons i rest ih =>
    rw [reportsFrom, h done i rest rfl, ih (by simpa using h)]
    rfl

/-- If the step for each item gives a result and keeps an invariant, so does the whole run. -/
theorem exists_foldlM (step : σ → ξ → Scan σ) (reports : List ι → ι → List Diagnostic)
    (inv : List ι → σ → Prop) {about : ξ → ι → Prop} {xs : List ξ} {items : List ι} {s : σ}
    (hxs : List.Forall₂ about xs items)
    (hstep : ∀ before x i after s, items = before ++ i :: after → about x i → inv before s →
      ∃ s' notes, step s x = ⟨.ok s', reports before i, notes⟩ ∧ inv (before ++ [i]) s')
    (hs : inv [] s) :
    ∃ s' notes, xs.foldlM step s = ⟨.ok s', reportsFrom reports [] items, notes⟩ ∧
      inv items s' := by
  suffices h : ∀ {xs : List ξ} {done rest : List ι} {s : σ}, items = done ++ rest →
      List.Forall₂ about xs rest → inv done s → ∃ s' notes,
        xs.foldlM step s = ⟨.ok s', reportsFrom reports done rest, notes⟩ ∧ inv items s' from
    h rfl hxs hs
  intro xs done rest s hitems hrest hs
  induction hrest generalizing done s with
  | nil =>
    obtain rfl : items = done := by simpa using hitems
    exact ⟨s, [], rfl, hs⟩
  | @cons x i xs rest hx _ ih =>
    obtain ⟨s', notes, hhead, hs'⟩ := hstep done x i rest s hitems hx hs
    obtain ⟨s'', notes', htail, hs''⟩ := ih (by simpa using hitems) hs'
    refine ⟨s'', notes ++ notes', ?_, hs''⟩
    rw [List.foldlM_cons, hhead, bind_ok, htail]
    rfl

end HeaderApi.Scan
