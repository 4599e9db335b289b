import Mathlib.Data.List.Forall2

/-!
# Results that may be errors

A sequence of steps that may fail succeeds exactly when every step does.  Functions that return an
`Except` are taken apart by these lemmas rather than by unfolding the monad.
-/

set_option autoImplicit false

namespace Tagwire

variable {ε α β γ : Type}

/-- Two steps succeed exactly when the first does and then the second. -/
theorem bind_eq_ok_iff {x : Except ε α} {f : α → Except ε β} {b : β} :
    x >>= f = .ok b ↔ ∃ a, x = .ok a ∧ f a = .ok b := by
  cases x with
  | error e => simp [bind, Except.bind]
  | ok a => simp [bind, Except.bind]

/-- A mapped step succeeds exactly when the step does. -/
theorem map_eq_ok_iff {x : Except ε α} {f : α → β} {b : β} :
    x.map f = .ok b ↔ ∃ a, x = .ok a ∧ f a = b := by
  cases x with
  | error e => simp [Except.map]
  | ok a => simp [Except.map]

/-- A mapped step succeeds with anything exactly when the step does. -/
theorem exists_map_eq_ok_iff {x : Except ε α} {f : α → β} : (∃ b, x.map f = .ok b) ↔ ∃ a, x = .ok a := by
  cases x with
  | error e => simp [Except.map]
  | ok a => simp [Except.map]

/-- A step behind which something is returned succeeds with anything exactly when it does alone. -/
theorem exists_bind_pure_eq_ok_iff {x : Except ε α} {f : α → β} :
    (∃ b, (x >>= fun a => pure (f a)) = .ok b) ↔ ∃ a, x = .ok a := by
  cases x with
  | error e => simp [bind, Except.bind]
  | ok a => simp [bind, Except.bind, pure, Except.pure]

/-- A step succeeds with renamed errors exactly when it does without. -/
theorem mapError_eq_ok_iff {x : Except ε α} {f : ε → γ} {a : α} :
    x.mapError f = .ok a ↔ x = .ok a := by
  cases x with
  | error e => simp [Except.mapError]
  | ok a => simp [Except.mapError]

/-- What is left of a result without its error is there exactly when the step succeeds. -/
theorem toOption_eq_some_iff {x : Except ε α} {a : α} : x.toOption = some a ↔ x = .ok a := by
  cases x with
  | error e => simp [Except.toOption]
  | ok b => simp [Except.toOption]

/-- A fold over a longer list succeeds exactly when its first step does and then the rest. -/
theorem foldlM_cons_eq_ok_iff {f : β → α → Except ε β} {b result : β} {a : α} {l : List α} :
    (a :: l).foldlM f b = .ok result ↔ ∃ next, f b a = .ok next ∧ l.foldlM f next = .ok result := by
  rw [List.foldlM_cons, bind_eq_ok_iff]

/-- A fold over nothing gives back what it starts from. -/
theorem foldlM_nil_eq_ok_iff {f : β → α → Except ε β} {b result : β} :
    [].foldlM f b = .ok result ↔ b = result := by
  simp [pure, Except.pure]

/-- A pass over a list succeeds exactly when it does at every member. -/
theorem forM_eq_ok_iff {f : α → Except ε Unit} {l : List α} :
    l.forM f = .ok ⟨⟩ ↔ ∀ a ∈ l, f a = .ok ⟨⟩ := by
  induction l with
  | nil => simp [List.forM, pure, Except.pure]
  | cons a rest ih =>
    rw [List.forM, bind_eq_ok_iff]
    simp only [ih, List.mem_cons, forall_eq_or_imp]
    constructor
    · rintro ⟨⟨⟩, ha, hrest⟩
      exact ⟨ha, hrest⟩
    · rintro ⟨ha, hrest⟩
      exact ⟨_, ha, hrest⟩

/-- A mapping over a list succeeds exactly when it does at every member, and gives what it gives there. -/
theorem mapM_eq_ok_iff {f : α → Except ε β} {l : List α} {result : List β} :
    l.mapM f = .ok result ↔ List.Forall₂ (fun a b => f a = .ok b) l result := by
  induction l generalizing result with
  | nil => cases result <;> simp [pure, Except.pure]
  | cons a rest ih =>
    rw [List.mapM_cons, bind_eq_ok_iff]
    simp only [bind_eq_ok_iff, ih]
    cases result with
    | nil => simp [pure, Except.pure]
    | cons b bs =>
      simp only [pure, Except.pure, Except.ok.injEq, List.cons.injEq, List.forall₂_cons]
      constructor
      · rintro ⟨b', hb, bs', hbs, rfl, rfl⟩
        exact ⟨hb, hbs⟩
      · rintro ⟨hb, hbs⟩
        exact ⟨b, hb, bs, hbs, rfl, rfl⟩

/-! ## Errors -/

/-- Two steps fail exactly when the first does, or it does not and the second does. -/
theorem bind_eq_error_iff {x : Except ε α} {f : α → Except ε β} {e : ε} :
    x >>= f = .error e ↔ x = .error e ∨ ∃ a, x = .ok a ∧ f a = .error e := by
  cases x with
  | error e' => simp [bind, Except.bind]
  | ok a => simp [bind, Except.bind]

/-- A mapped step fails exactly when the step does. -/
theorem map_eq_error_iff {x : Except ε α} {f : α → β} {e : ε} :
    x.map f = .error e ↔ x = .error e := by
  cases x with
  | error e' => simp [Except.map]
  | ok a => simp [Except.map]

/-- A step fails with renamed errors exactly when it fails with an error that is renamed so. -/
theorem mapError_eq_error_iff {x : Except ε α} {f : ε → γ} {e : γ} :
    x.mapError f = .error e ↔ ∃ fault, x = .error fault ∧ f fault = e := by
  cases x with
  | error e' => simp [Except.mapError]
  | ok a => simp [Except.mapError]

/-- A fold fails exactly when it fails at a first member, after having gone through what is before. -/
theorem foldlM_eq_error_iff {f : β → α → Except ε β} {b : β} {l : List α} {e : ε} :
    l.foldlM f b = .error e ↔ ∃ before a after mid, l = before ++ a :: after ∧
      before.foldlM f b = .ok mid ∧ f mid a = .error e := by
  induction l generalizing b with
  | nil => simp [pure, Except.pure]
  | cons a rest ih =>
    rw [List.foldlM_cons, bind_eq_error_iff]
    simp only [ih]
    constructor
    · rintro (hfirst | ⟨next, hnext, before, c, after, mid, rfl, hbefore, hc⟩)
      · exact ⟨[], a, rest, b, rfl, rfl, hfirst⟩
      · exact ⟨a :: before, c, after, mid, rfl, foldlM_cons_eq_ok_iff.mpr ⟨next, hnext, hbefore⟩, hc⟩
    · rintro ⟨before, c, after, mid, hl, hbefore, hc⟩
      cases before with
      | nil =>
        obtain ⟨rfl, rfl⟩ := List.cons.inj hl
        obtain rfl := foldlM_nil_eq_ok_iff.mp hbefore
        exact .inl hc
      | cons d before =>
        obtain ⟨rfl, rfl⟩ := List.cons.inj hl
        obtain ⟨next, hnext, hbefore⟩ := foldlM_cons_eq_ok_iff.mp hbefore
        exact .inr ⟨next, hnext, before, c, after, mid, rfl, hbefore, hc⟩

/-- A pass over a list that fails does so at one of the members. -/
theorem exists_of_forM_eq_error {f : α → Except ε Unit} {l : List α} {e : ε} (h : l.forM f = .error e) :
    ∃ a ∈ l, f a = .error e := by
  induction l with
  | nil => cases h
  | cons a rest ih =>
    rw [List.forM, bind_eq_error_iff] at h
    rcases h with h | ⟨⟨⟩, -, h⟩
    · exact ⟨a, List.mem_cons_self, h⟩
    · obtain ⟨b, hb, hfails⟩ := ih h
      exact ⟨b, List.mem_cons_of_mem _ hb, hfails⟩

/-- A mapping over a list that fails does so at one of the members. -/
theorem exists_of_mapM_eq_error {f : α → Except ε β} {l : List α} {e : ε} (h : l.mapM f = .error e) :
    ∃ a ∈ l, f a = .error e := by
  induction l with
  | nil => cases h
  | cons a rest ih =>
    rw [List.mapM_cons, bind_eq_error_iff] at h
    rcases h with h | ⟨b, -, h⟩
    · exact ⟨a, List.mem_cons_self, h⟩
    · obtain h | ⟨bs, -, h⟩ := bind_eq_error_iff.mp h
      · obtain ⟨c, hc, hfails⟩ := ih h
        exact ⟨c, List.mem_cons_of_mem _ hc, hfails⟩
      · cases h

/-! ## Results that may be missing -/

/-- A mapped result is there exactly when the result is. -/
theorem exists_map_eq_some_iff {x : Option α} {f : α → β} : (∃ b, x.map f = some b) ↔ ∃ a, x = some a := by
  rw [← Option.isSome_iff_exists, Option.isSome_map, Option.isSome_iff_exists]

/-- A mapping over a list that succeeds at every member gives what it gives there. -/
theorem mapM_eq_some_map {f : α → Option β} {g : α → β} {l : List α} (h : ∀ a ∈ l, f a = some (g a)) :
    l.mapM f = some (l.map g) := by
  induction l with
  | nil => rfl
  | cons a rest ih =>
    rw [List.mapM_cons, h a (by simp), ih fun a' ha' => h a' (by simp [ha'])]
    rfl

/-- A mapping over a list each of whose steps succeeds under a condition succeeds under all of them. -/
theorem mapM_eq_some_iff_of {f : α → Option β} {g : α → β} {p : α → Prop} {l : List α}
    (h : ∀ a ∈ l, ∀ b, f a = some b ↔ p a ∧ b = g a) (result : List β) :
    l.mapM f = some result ↔ (∀ a ∈ l, p a) ∧ result = l.map g := by
  induction l generalizing result with
  | nil => simp [eq_comm]
  | cons a rest ih =>
    rw [List.mapM_cons]
    simp only [Option.bind_eq_bind, Option.bind_eq_some_iff, Option.pure_def, Option.some.injEq,
      h a (by simp), ih fun a' ha' => h a' (by simp [ha']), List.forall_mem_cons]
    constructor
    · rintro ⟨_, ⟨ha, rfl⟩, _, ⟨hrest, rfl⟩, rfl⟩
      exact ⟨⟨ha, hrest⟩, rfl⟩
    · rintro ⟨⟨ha, hrest⟩, rfl⟩
      exact ⟨_, ⟨ha, rfl⟩, _, ⟨hrest, rfl⟩, rfl⟩

/-- What a function is at the elements of a list one by one, it is at the list. -/
theorem mapM_eq_some_of_forall₂ {f : α → Option β} {l : List α} {l' : List β}
    (h : List.Forall₂ (fun a b => f a = some b) l l') : l.mapM f = some l' := by
  induction h with
  | nil => rfl
  | cons hfirst _ ih =>
    rw [List.mapM_cons, hfirst, ih]
    rfl

/-- A mapping over a list succeeds if it does at every member. -/
theorem exists_mapM_eq_some {f : α → Option β} {l : List α} (h : ∀ a ∈ l, ∃ b, f a = some b) :
    ∃ result, l.mapM f = some result := by
  induction l with
  | nil => exact ⟨[], rfl⟩
  | cons a rest ih =>
    obtain ⟨b, hb⟩ := h a (by simp)
    obtain ⟨bs, hbs⟩ := ih fun a' ha' => h a' (by simp [ha'])
    refine ⟨b :: bs, ?_⟩
    rw [List.mapM_cons, hb, hbs]
    rfl

/-- What holds at first and is kept by every step of a fold holds in the end. -/
theorem of_foldlM_eq_some {f : β → α → Option β} {P : β → Prop} {l : List α} {b result : β} (hb : P b)
    (hstep : ∀ a ∈ l, ∀ b next, P b → f b a = some next → P next) (h : l.foldlM f b = some result) :
    P result := by
  induction l generalizing b with
  | nil =>
    cases h
    exact hb
  | cons a rest ih =>
    rw [List.foldlM_cons] at h
    obtain ⟨next, hnext, h⟩ := Option.bind_eq_some_iff.mp h
    exact ih (hstep a List.mem_cons_self b next hb hnext)
      (fun a' ha' => hstep a' (List.mem_cons_of_mem _ ha')) h

/-- What a mapping gives, it gives for a member of the list. -/
theorem exists_of_mem_mapM {f : α → Option β} {l : List α} {result : List β}
    (h : l.mapM f = some result) {b : β} (hb : b ∈ result) : ∃ a ∈ l, f a = some b := by
  induction l generalizing result with
  | nil =>
    cases h
    cases hb
  | cons a rest ih =>
    rw [List.mapM_cons] at h
    simp only [Option.bind_eq_bind, Option.bind_eq_some_iff, Option.pure_def, Option.some.injEq] at h
    obtain ⟨first, hfirst, others, hothers, rfl⟩ := h
    rcases List.mem_cons.mp hb with rfl | hb
    · exact ⟨a, List.mem_cons_self, hfirst⟩
    · obtain ⟨a', ha', hf⟩ := ih hothers hb
      exact ⟨a', List.mem_cons_of_mem _ ha', hf⟩

/-- A mapping gives something for every member of the list. -/
theorem exists_mem_of_mapM {f : α → Option β} {l : List α} {result : List β}
    (h : l.mapM f = some result) {a : α} (ha : a ∈ l) : ∃ b ∈ result, f a = some b := by
  induction l generalizing result with
  | nil => cases ha
  | cons first rest ih =>
    rw [List.mapM_cons] at h
    simp only [Option.bind_eq_bind, Option.bind_eq_some_iff, Option.pure_def, Option.some.injEq] at h
    obtain ⟨b, hb, others, hothers, rfl⟩ := h
    rcases List.mem_cons.mp ha with rfl | ha
    · exact ⟨b, List.mem_cons_self, hb⟩
    · obtain ⟨b', hmem, hf⟩ := ih hothers ha
      exact ⟨b', List.mem_cons_of_mem _ hmem, hf⟩

/-- What a mapping gives has the same traits as what it started from, if each member does. -/
theorem map_eq_map_of_mapM {f : α → Option β} {g : β → γ} {k : α → γ} {l : List α} {result : List β}
    (h : l.mapM f = some result) (hf : ∀ a ∈ l, ∀ b, f a = some b → g b = k a) :
    result.map g = l.map k := by
  induction l generalizing result with
  | nil =>
    cases h
    rfl
  | cons a rest ih =>
    rw [List.mapM_cons] at h
    simp only [Option.bind_eq_bind, Option.bind_eq_some_iff, Option.pure_def, Option.some.injEq] at h
    obtain ⟨b, hb, bs, hbs, rfl⟩ := h
    rw [List.map_cons, List.map_cons, hf a (by simp) b hb,
      ih hbs fun a' ha' => hf a' (by simp [ha'])]

/-- What a mapping gives, changed member by member, is what the changed mapping gives. -/
theorem map_mapM {f : α → Option β} {g : β → γ} (l : List α) :
    (l.mapM f).map (List.map g) = l.mapM fun a => (f a).map g := by
  induction l with
  | nil => rfl
  | cons a rest ih =>
    rw [List.mapM_cons, List.mapM_cons, ← ih]
    cases f a with
    | none => rfl
    | some b => cases rest.mapM f <;> rfl

/-- Mappings that agree on the members of a list give the same. -/
theorem mapM_congr {f g : α → Option β} {l : List α} (h : ∀ a ∈ l, f a = g a) : l.mapM f = l.mapM g := by
  induction l with
  | nil => rfl
  | cons a rest ih =>
    rw [List.mapM_cons, List.mapM_cons, h a (by simp), ih fun a' ha' => h a' (by simp [ha'])]

/-- A function that gives what another one gives does so along a list. -/
theorem mapM_eq_some_mono {f g : α → Option β} {l : List α} {result : List β}
    (h : ∀ a ∈ l, ∀ b, f a = some b → g a = some b) (hf : l.mapM f = some result) : l.mapM g = some result := by
  induction l generalizing result with
  | nil => exact hf
  | cons a rest ih =>
    rw [List.mapM_cons] at hf ⊢
    simp only [Option.bind_eq_bind, Option.bind_eq_some_iff, Option.pure_def, Option.some.injEq] at hf
    obtain ⟨b, hb, others, hothers, rfl⟩ := hf
    rw [h a List.mem_cons_self b hb, ih (fun a ha => h a (List.mem_cons_of_mem _ ha)) hothers]
    rfl

/-- A mapping succeeds where another does, if it does so at every member. -/
theorem isSome_mapM_congr {f g : α → Option β} {l : List α} (h : ∀ a ∈ l, (f a).isSome = (g a).isSome) :
    (l.mapM f).isSome = (l.mapM g).isSome := by
  have hunit : ∀ f : α → Option β, (l.mapM f).isSome = (l.mapM fun a => (f a).map fun _ => ()).isSome := by
    intro f
    rw [← map_mapM, Option.isSome_map]
  rw [hunit, hunit]
  refine congrArg Option.isSome (mapM_congr fun a ha => ?_)
  have hsome := h a ha
  cases hf : f a <;> cases hg : g a <;> rw [hf, hg] at hsome <;> first | rfl | cases hsome

/-- A member of the first of two related lists is related to one of the second. -/
theorem exists_of_forall₂ {r : α → β → Prop} {l : List α} {l' : List β} (h : List.Forall₂ r l l')
    {a : α} (ha : a ∈ l) : ∃ b ∈ l', r a b := by
  induction h with
  | nil => simp at ha
  | @cons x y _ _ hxy _ ih =>
    rcases List.mem_cons.mp ha with rfl | ha
    · exact ⟨y, by simp, hxy⟩
    · obtain ⟨b, hb, hab⟩ := ih ha
      exact ⟨b, by simp [hb], hab⟩

/-- Lists whose members have the same traits in turn have the same lists of traits. -/
theorem map_eq_map_of_forall₂ {g : β → γ} {k : α → γ} {l : List α} {l' : List β}
    (h : List.Forall₂ (fun a b => g b = k a) l l') : l'.map g = l.map k := by
  induction h with
  | nil => rfl
  | cons hfirst _ ih => rw [List.map_cons, List.map_cons, hfirst, ih]

/-- A list each member of which is related to something is related to a list. -/
theorem exists_forall₂ {r : α → β → Prop} {l : List α} (h : ∀ a ∈ l, ∃ b, r a b) :
    ∃ l', List.Forall₂ r l l' := by
  induction l with
  | nil => exact ⟨[], .nil⟩
  | cons a rest ih =>
    obtain ⟨b, hb⟩ := h a (by simp)
    obtain ⟨bs, hbs⟩ := ih fun a' ha' => h a' (by simp [ha'])
    exact ⟨b :: bs, .cons hb hbs⟩

/-- Between related lists stands a list that is related to both, if there is something between each pair. -/
theorem exists_forall₂_between {r : α → β → Prop} {s : β → γ → Prop} {t : γ → α → Prop} {l : List α}
    {l' : List β} (h : List.Forall₂ r l l') (hb : ∀ a, ∀ b ∈ l', r a b → ∃ c, s b c ∧ t c a) :
    ∃ l'', List.Forall₂ s l' l'' ∧ List.Forall₂ t l'' l := by
  induction h with
  | nil => exact ⟨[], .nil, .nil⟩
  | @cons a b _ _ hab _ ih =>
    obtain ⟨c, hs, ht⟩ := hb a b (by simp) hab
    obtain ⟨cs, hss, hts⟩ := ih fun a' b' hb' => hb a' b' (by simp [hb'])
    exact ⟨c :: cs, .cons hs hss, .cons ht hts⟩

/-- What is mapped is related if the two maps keep what is related so. -/
theorem rel_map {δ : Type} {q : α → β → Prop} {r : γ → δ → Prop} {f : α → γ} {g : β → δ} {x : Option α}
    {y : Option β} (h : Option.Rel q x y) (hr : ∀ a b, q a b → r (f a) (g b)) :
    Option.Rel r (x.map f) (y.map g) := by
  cases h with
  | none => exact .none
  | some hfirst => exact .some (hr _ _ hfirst)

/-- What follows is related if the two steps are and what follows them keeps what is related so. -/
theorem rel_bind {δ : Type} {q : α → β → Prop} {r : γ → δ → Prop} {f : α → Option γ} {g : β → Option δ}
    {x : Option α} {y : Option β} (h : Option.Rel q x y)
    (hr : ∀ a b, x = some a → q a b → Option.Rel r (f a) (g b)) : Option.Rel r (x.bind f) (y.bind g) := by
  cases h with
  | none => exact .none
  | some hfirst => exact hr _ _ rfl hfirst

/-- What is mapped in two ways is related if the two ways relate whatever is there. -/
theorem rel_map_map {r : β → γ → Prop} {f : α → β} {g : α → γ} {x : Option α}
    (h : ∀ a, x = some a → r (f a) (g a)) : Option.Rel r (x.map f) (x.map g) := by
  cases x with
  | none => exact .none
  | some a => exact .some (h a rfl)

/-- What is related by being mapped is mapped. -/
theorem eq_map_of_rel {f : α → β} {x : Option β} {y : Option α} (h : Option.Rel (fun b a => b = f a) x y) :
    x = y.map f := by
  cases h with
  | none => rfl
  | some hfirst => exact congrArg some hfirst

end Tagwire
