import Mathlib.Tactic.TypeStar

/-! # Programs that question their surroundings

A program is a tree: it has returned, or it asks a question and goes on with the answer.
`Ensures` is a rule of pre- and postconditions for such programs in surroundings that
change between two questions. -/

/-- `A q` is the type of the answers to the question `q`. -/
inductive Program (Q : Type) (A : Q → Type) (α : Type) where
  | done (result : α)
  | ask (question : Q) (next : A question → Program Q A α)

namespace Program

variable {Q : Type} {A : Q → Type} {α β : Type}

def bind (p : Program Q A α) (f : α → Program Q A β) : Program Q A β :=
  match p with
  | .done a => f a
  | .ask q next => .ask q fun r => (next r).bind f

instance : Monad (Program Q A) where
  pure := .done
  bind := bind

@[simp] theorem pure_eq (a : α) : (pure a : Program Q A α) = .done a := rfl

@[simp] theorem done_bind (a : α) (f : α → Program Q A β) :
    ((.done a : Program Q A α) >>= f) = f a := rfl

@[simp] theorem ask_bind (q : Q) (next : A q → Program Q A α) (f : α → Program Q A β) :
    ((.ask q next : Program Q A α) >>= f) = .ask q fun r => next r >>= f := rfl

end Program

/-- What a program meets: the changes that others make between two of its questions, and
the change that goes with an answer. -/
structure Surroundings (Q : Type) (A : Q → Type) (σ : Type) where
  interference : σ → σ → Prop
  exchange : σ → (q : Q) → A q → σ → Prop

namespace Program

variable {Q : Type} {A : Q → Type} {α β σ : Type}

/-- `Executes w p s a t`: in the surroundings `w`, the program `p` goes from `s` to `t` and
returns `a`. -/
inductive Executes (w : Surroundings Q A σ) : Program Q A α → σ → α → σ → Prop where
  | done (a : α) (s : σ) : Executes w (.done a) s a s
  | ask {q : Q} {next : A q → Program Q A α} {s s1 s2 t : σ} {r : A q} {a : α} :
      w.interference s s1 → w.exchange s1 q r s2 → Executes w (next r) s2 a t →
      Executes w (.ask q next) s a t

/-- Every exchange of the program stays within `kept`, and `post` holds when it returns. -/
def Ensures (w : Surroundings Q A σ) (kept : σ → σ → Prop) :
    Program Q A α → (α → σ → Prop) → σ → Prop
  | .done a, post, s => post a s
  | .ask q next, post, s => ∀ s1, w.interference s s1 → ∀ r s2, w.exchange s1 q r s2 →
      kept s1 s2 ∧ Ensures w kept (next r) post s2

variable {w : Surroundings Q A σ} {kept : σ → σ → Prop}

variable {p : Program Q A α} {post : α → σ → Prop} {s : σ} {S : Q → Prop}

theorem Ensures.mono {post' : α → σ → Prop} (h : p.Ensures w kept post s)
    (hpost : ∀ a t, post a t → post' a t) :
    p.Ensures w kept post' s := by
  induction p generalizing s with
  | done a => exact hpost a s h
  | ask q next ih =>
    intro s1 h1 r s2 h2
    obtain ⟨hkept, hnext⟩ := h s1 h1 r s2 h2
    exact ⟨hkept, ih r hnext⟩

theorem ensures_bind {f : α → Program Q A β} {post : β → σ → Prop}
    (h : p.Ensures w kept (fun a t => (f a).Ensures w kept post t) s) :
    (p >>= f).Ensures w kept post s := by
  induction p generalizing s with
  | done a => exact h
  | ask q next ih =>
    intro s1 h1 r s2 h2
    obtain ⟨hkept, hnext⟩ := h s1 h1 r s2 h2
    exact ⟨hkept, ih r hnext⟩

theorem Ensures.of_executes {t : σ} {a : α} (h : p.Ensures w kept post s) (he : Executes w p s a t)
    : post a t := by
  induction he with
  | done a s => exact h
  | ask h1 h2 _ ih => exact ih (h _ h1 _ _ h2).2

/-- An execution of a sequence is one of its first part, then one of its second. -/
theorem executes_bind {f : α → Program Q A β} {t : σ} {b : β} (h : Executes w (p >>= f) s b t) :
    ∃ a s1, Executes w p s a s1 ∧ Executes w (f a) s1 b t := by
  induction p generalizing s with
  | done a => exact ⟨a, s, .done a s, h⟩
  | ask q next ih =>
    cases h with
    | ask h1 h2 hnext =>
      obtain ⟨a, s1, hp, hf⟩ := ih _ hnext
      exact ⟨a, s1, .ask h1 h2 hp, hf⟩

/-- Surroundings that answer every question let every program return. -/
theorem exists_executes (hw : ∀ s q, ∃ s1 r s2, w.interference s s1 ∧ w.exchange s1 q r s2)
    (p : Program Q A α) (s : σ) : ∃ a t, Executes w p s a t := by
  induction p generalizing s with
  | done a => exact ⟨a, s, .done a s⟩
  | ask q next ih =>
    obtain ⟨s1, r, s2, h1, h2⟩ := hw s q
    obtain ⟨a, t, ht⟩ := ih r s2
    exact ⟨a, t, .ask h1 h2 ht⟩

/-- Fewer disturbances and weaker promises. -/
theorem Ensures.weaken {w' : Surroundings Q A σ} {kept' : σ → σ → Prop} {post' : α → σ → Prop}
    (h : p.Ensures w kept post s) (hrely : ∀ x y, w'.interference x y → w.interference x y)
    (hexchange : ∀ x q r y, w'.exchange x q r y → w.exchange x q r y)
    (hkept : ∀ x y, kept x y → kept' x y) (hpost : ∀ a t, post a t → post' a t) :
    p.Ensures w' kept' post' s := by
  induction p generalizing s with
  | done a => exact hpost a s h
  | ask q next ih =>
    intro s1 h1 r s2 h2
    obtain ⟨hstep, hnext⟩ := h s1 (hrely s s1 h1) r s2 (hexchange s1 q r s2 h2)
    exact ⟨hkept s1 s2 hstep, ih r hnext⟩

theorem ensures_map {f : α → β} {post : β → σ → Prop}
    (h : p.Ensures w kept (fun a t => post (f a) t) s) : (f <$> p).Ensures w kept post s :=
  ensures_bind h

/-- Every question that the program can come to ask is in `S`. -/
def Within (S : Q → Prop) : Program Q A α → Prop
  | .done _ => True
  | .ask q next => S q ∧ ∀ r, Within S (next r)

theorem Within.mono {S' : Q → Prop} (hle : ∀ q, S q → S' q) (h : p.Within S) : p.Within S' := by
  induction p with
  | done a => trivial
  | ask q next ih => exact ⟨hle q h.1, fun r => ih r (h.2 r)⟩

theorem within_bind {f : α → Program Q A β} (hp : p.Within S) (hf : ∀ a, (f a).Within S) :
    (p >>= f).Within S := by
  induction p with
  | done a => exact hf a
  | ask q next ih => exact ⟨hp.1, fun r => ih r (hp.2 r)⟩

/-- A program whose questions all keep `P` keeps it when interference does. -/
theorem Within.ensures {P : σ → Prop} (hrely : ∀ x y, w.interference x y → P x → P y)
    (hask : ∀ x q r y, S q → P x → w.exchange x q r y → kept x y ∧ P y) (h : p.Within S) (hs : P s)
    : p.Ensures w kept (fun _ t => P t) s := by
  induction p generalizing s with
  | done a => exact hs
  | ask q next ih =>
    intro s1 h1 r s2 h2
    obtain ⟨hkept, hs2⟩ := hask s1 q r s2 h.1 (hrely s s1 h1 hs) h2
    exact ⟨hkept, ih r (h.2 r) hs2⟩

end Program

/-! ## Programs with local state -/

/-- Programs with a local state of type `L`. -/
abbrev Routine (L Q : Type) (A : Q → Type) := StateT L (Program Q A)

namespace Routine

variable {L Q : Type} {A : Q → Type} {α β σ : Type}

def ask (q : Q) : Routine L Q A (A q) := fun l => .ask q fun r => .done (r, l)

/-- The postcondition is about the result, the local state and the surroundings. -/
def Ensures (w : Surroundings Q A σ) (kept : σ → σ → Prop) (m : Routine L Q A α)
    (post : α → L → σ → Prop) (l : L) (s : σ) : Prop :=
  Program.Ensures w kept (m l) (fun p t => post p.1 p.2 t) s

variable {w : Surroundings Q A σ} {kept : σ → σ → Prop} {l : L} {s : σ}

variable {post : α → L → σ → Prop} {m : Routine L Q A α}

theorem ensures_pure {a : α} (h : post a l s) :
    Ensures w kept (pure a : Routine L Q A α) post l s := h

theorem ensures_bind {f : α → Routine L Q A β} {post : β → L → σ → Prop}
    (h : Ensures w kept m (fun a l t => Ensures w kept (f a) post l t) l s) :
    Ensures w kept (m >>= f) post l s :=
  Program.ensures_bind h

theorem ensures_ask {q : Q} {post : A q → L → σ → Prop}
    (h : ∀ s1, w.interference s s1 → ∀ r s2, w.exchange s1 q r s2 →
      kept s1 s2 ∧ post r l s2) :
    Ensures w kept (ask q : Routine L Q A (A q)) post l s := h

theorem ensures_get {post : L → L → σ → Prop} (h : post l l s) :
    Ensures w kept (get : Routine L Q A L) post l s := h

theorem ensures_modify {f : L → L} {post : PUnit → L → σ → Prop} (h : post ⟨⟩ (f l) s) :
    Ensures w kept (modify f : Routine L Q A PUnit) post l s := h

theorem Ensures.mono {post' : α → L → σ → Prop} (h : Ensures w kept m post l s)
    (hpost : ∀ a l t, post a l t → post' a l t) :
    Ensures w kept m post' l s :=
  Program.Ensures.mono h fun p t => hpost p.1 p.2 t

/-- A routine that leaves the local state as it is, followed by another one. -/
theorem ensures_seq {f : α → Routine L Q A β} {post : β → L → σ → Prop} {P : α → σ → Prop}
    (h : Ensures w kept m (fun a l' t => l' = l ∧ P a t) l s)
    (hf : ∀ a t, P a t → Ensures w kept (f a) post l t) : Ensures w kept (m >>= f) post l s := by
  refine ensures_bind (h.mono ?_)
  rintro a l' t ⟨rfl, ha⟩
  exact hf a t ha

/-- What every exchange and all interference keep still holds when a routine returns. -/
theorem Ensures.and_stable {P : σ → Prop}
    (hP : ∀ s s1 q r s2, P s → w.interference s s1 → w.exchange s1 q r s2 → P s2)
    (h : Ensures w kept m post l s) (hs : P s) :
    Ensures w kept m (fun a l t => post a l t ∧ P t) l s := by
  have hprogram : ∀ (p : Program Q A (α × L)) s, P s →
      p.Ensures w kept (fun x t => post x.1 x.2 t) s →
      p.Ensures w kept (fun x t => post x.1 x.2 t ∧ P t) s := by
    intro p
    induction p with
    | done a => exact fun s hs h => ⟨h, hs⟩
    | ask q next ih =>
      intro s hs h s1 h1 r s2 h2
      obtain ⟨hkept, hnext⟩ := h s1 h1 r s2 h2
      exact ⟨hkept, ih r s2 (hP s s1 q r s2 hs h1 h2) hnext⟩
  exact hprogram (m l) s hs h

end Routine

/-! ## Executions of routines -/

namespace Routine

variable {L Q : Type} {A : Q → Type} {α β σ : Type} {w : Surroundings Q A σ} {l l' : L} {s s' : σ}

/-- `Runs w m l s a l' s'`: the routine goes from `l` and `s` to `l'` and `s'` and returns `a`. -/
def Runs (w : Surroundings Q A σ) (m : Routine L Q A α) (l : L) (s : σ) (a : α) (l' : L)
    (s' : σ) : Prop :=
  Program.Executes w (m l) s (a, l') s'

@[simp] theorem runs_pure {a b : α} : Runs w (pure a) l s b l' s' ↔ b = a ∧ l' = l ∧ s' = s := by
  constructor
  · intro h
    cases h
    simp
  · intro ⟨hb, hl, hs⟩
    rw [hb, hl, hs]
    exact .done _ _

theorem runs_bind {m : Routine L Q A α} {f : α → Routine L Q A β} {b : β}
    (h : Runs w (m >>= f) l s b l' s') :
    ∃ a l1 s1, Runs w m l s a l1 s1 ∧ Runs w (f a) l1 s1 b l' s' := by
  obtain ⟨⟨a, l1⟩, s1, hm, hf⟩ := Program.executes_bind h
  exact ⟨a, l1, s1, hm, hf⟩

theorem runs_get {f : L → Routine L Q A β} {b : β} (h : Runs w (get >>= f) l s b l' s') :
    Runs w (f l) l s b l' s' := h

/-- What a routine ensures whatever happens holds of each of its executions. -/
theorem Runs.of_ensures {m : Routine L Q A α} {kept : σ → σ → Prop} {post : α → L → σ → Prop}
    {a : α} (h : Runs w m l s a l' s') (he : Ensures w kept m post l s) : post a l' s' := by
  have hprogram : Program.Ensures w kept (m l) (fun x t => post x.1 x.2 t) s := he
  exact hprogram.of_executes h

end Routine

/-! ## Undisturbed programs -/

namespace Program

variable {Q : Type} {A : Q → Type} {α β σ : Type}

/-- The result and the last state of a program that `serve` answers without interference. -/
def runWith (serve : σ → (q : Q) → Option (A q × σ)) : Program Q A α → σ → Option (α × σ)
  | .done a, s => some (a, s)
  | .ask q next, s => (serve s q).bind fun r => runWith serve (next r.1) r.2

variable {serve : σ → (q : Q) → Option (A q × σ)}

theorem runWith_bind (p : Program Q A α) (f : α → Program Q A β) (s : σ) :
    (p >>= f).runWith serve s = (p.runWith serve s).bind fun r => (f r.1).runWith serve r.2 := by
  induction p generalizing s with
  | done a => rfl
  | ask q next ih =>
    change (serve s q).bind (fun r => ((next r.1) >>= f).runWith serve r.2) = _
    rw [runWith, Option.bind_assoc]
    congr 1
    funext r
    exact ih r.1 r.2

/-- What every answer keeps, a whole program keeps. -/
theorem runWith_inv {P : σ → Prop}
    (hserve : ∀ s q r s', P s → serve s q = some (r, s') → P s') {p : Program Q A α} {s t : σ}
    {a : α} (h : p.runWith serve s = some (a, t)) (hs : P s) : P t := by
  induction p generalizing s with
  | done b =>
    cases h
    exact hs
  | ask q next ih =>
    obtain ⟨⟨r, s'⟩, hr, hnext⟩ := Option.bind_eq_some_iff.mp h
    exact ih r hnext (hserve s q r s' hs hr)

end Program

/-! ## Recorded exchanges -/

/-- A question with its answer. -/
abbrev Exchange (Q : Type) (A : Q → Type) := (q : Q) × A q

/-- Surroundings that remember every exchange, newest first. Which answers may come is
decided by `allowed` from the exchanges so far. -/
def recorded {Q : Type} {A : Q → Type}
    (allowed : List (Exchange Q A) → (q : Q) → A q → Prop) :
    Surroundings Q A (List (Exchange Q A)) where
  interference := Eq
  exchange tr q r tr' := allowed tr q r ∧ tr' = ⟨q, r⟩ :: tr

namespace Program

variable {Q : Type} {A : Q → Type} {α : Type}

/-- The result and the record of a program that `answer` answers, when every answer passes
the test `ok`. -/
def play (answer : List (Exchange Q A) → (q : Q) → A q)
    (ok : List (Exchange Q A) → (q : Q) → A q → Bool) :
    Program Q A α → List (Exchange Q A) → Option (α × List (Exchange Q A))
  | .done a, tr => some (a, tr)
  | .ask q next, tr =>
    if ok tr q (answer tr q) then play answer ok (next (answer tr q)) (⟨q, answer tr q⟩ :: tr)
    else none

variable {allowed : List (Exchange Q A) → (q : Q) → A q → Prop}
  {ok : List (Exchange Q A) → (q : Q) → A q → Bool}

theorem executes_of_play {answer : List (Exchange Q A) → (q : Q) → A q}
    (hok : ∀ tr q r, ok tr q r = true → allowed tr q r) {p : Program Q A α}
    {tr tr' : List (Exchange Q A)} {a : α} (h : p.play answer ok tr = some (a, tr')) :
    Executes (recorded allowed) p tr a tr' := by
  induction p generalizing tr with
  | done b =>
    cases h
    exact .done _ _
  | ask q next ih =>
    rw [play] at h
    obtain ⟨htest, hnext⟩ := Option.ite_none_right_eq_some.mp h
    exact .ask rfl ⟨hok _ _ _ htest, rfl⟩ (ih _ hnext)

/-- An execution whose result and record pass a decidable check. -/
theorem exists_executes_of_play (answer : List (Exchange Q A) → (q : Q) → A q)
    (hok : ∀ tr q r, ok tr q r = true → allowed tr q r) (p : Program Q A α)
    (check : α → List (Exchange Q A) → Bool)
    (h : (p.play answer ok []).any (fun x => check x.1 x.2) = true) :
    ∃ a tr, Executes (recorded allowed) p [] a tr ∧ check a tr = true := by
  cases hplay : p.play answer ok [] with
  | none => simp [hplay] at h
  | some x =>
    rw [hplay] at h
    exact ⟨x.1, x.2, executes_of_play hok hplay, h⟩

end Program
