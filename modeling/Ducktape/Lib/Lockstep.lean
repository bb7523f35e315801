import Mathlib.Tactic.Common

/-! # Lockstep runs of fallible state computations

Computations `σ → Except ε (α × σ)` composed by `>>=`, compared two at a time.

* `Moves P s x` says a run `x` from `s`, if it succeeds, takes the state along `P`;
* `Follows` says a run `y` follows a run `x`: it returns the same value in a related state, as long
  as the leading run's state stays good, or else the two part: the leading state is then apart, and
  whatever the following run still returns is off. A leading error is followed only where nothing
  can part;
* `Tracks` adds that both runs keep to this from unrelated states too, so that runs which parted stay
  parted. It is the notion that composes: `Tracks.bind`;
* `Composable` says what composing is, for any relation of two runs. `Carries`, that the one returns what
  the other does, is another such relation.

With every state good and none apart, `Follows` is a plain simulation of both outcomes. -/

namespace Ducktape.Lib

/-- A composed run that succeeds succeeds in both parts. -/
theorem bind_eq_ok {ε α β : Type} {x : Except ε α} {f : α → Except ε β} {r : β} :
    (x >>= f) = .ok r ↔ ∃ a, x = .ok a ∧ f a = .ok r := by
  cases x with
  | error | ok => simp [bind, Except.bind]

section Moves

variable {ε α β σ : Type} {P : σ → σ → Prop} {s : σ}

/-- A run from `s`, if it succeeds, moves the state along `P`. -/
def Moves (P : σ → σ → Prop) (s : σ) (x : Except ε (α × σ)) : Prop :=
  ∀ r s', x = .ok (r, s') → P s s'

theorem Moves.ok {r : α} {s' : σ} (step : P s s') : Moves P s (.ok (r, s') : Except ε (α × σ)) := by
  rintro _ _ ⟨⟩
  exact step

theorem Moves.error (e : ε) : Moves P s (.error e : Except ε (α × σ)) := by
  rintro _ _ ⟨⟩

/-- A run moves along a transitive relation when each of its parts does. -/
theorem Moves.bind (trans : ∀ a b c, P a b → P b c → P a c) {x : Except ε (α × σ)}
    {f : α × σ → Except ε (β × σ)} (first : Moves P s x)
    (rest : ∀ v s', Moves P s' (f (v, s'))) : Moves P s (x >>= f) := by
  intro r s' ended
  cases x with
  | error e => cases ended
  | ok mid => exact trans _ _ _ (first mid.1 mid.2 rfl) (rest mid.1 mid.2 r s' ended)

end Moves

section Follows

variable {ε α α' γ β : Type} (Good Apart : γ → Prop) (Off : β → Prop)

/-- The run `y` follows the run `x`. -/
def Follows (rel : α → γ → β → Prop) (x : Except ε (α × γ)) (y : Except ε (α × β)) : Prop :=
  match x with
  | .ok (v, c) =>
    Good c → (∃ b, y = .ok (v, b) ∧ rel v c b) ∨ (Apart c ∧ ∀ v' b, y = .ok (v', b) → Off b)
  | .error e => (∀ c, Good c) → (∀ c, ¬ Apart c) → y = .error e

variable {Good Apart Off} in
/-- Where nothing can part, a following run that succeeds follows a success. -/
theorem Follows.of_ok {rel : α → γ → β → Prop} {x : Except ε (α × γ)} {y : Except ε (α × β)}
    (follows : Follows Good Apart Off rel x y) (good : ∀ c, Good c) (together : ∀ c, ¬ Apart c)
    {v : α} {b : β} (ended : y = .ok (v, b)) : ∃ c, x = .ok (v, c) ∧ rel v c b := by
  cases x with
  | error e =>
    rw [follows good together] at ended
    cases ended
  | ok done =>
    obtain ⟨v', c⟩ := done
    obtain ⟨b', ended', related⟩ | ⟨apart, -⟩ := follows (good c)
    · cases ended.symm.trans ended'
      exact ⟨c, rfl, related⟩
    · exact absurd apart (together c)

variable {Good Apart Off} in
/-- The relation of the end states may be weakened. -/
theorem Follows.mono {rel rel' : α → γ → β → Prop} {x : Except ε (α × γ)} {y : Except ε (α × β)}
    (follows : Follows Good Apart Off rel x y) (weaker : ∀ v c b, rel v c b → rel' v c b) :
    Follows Good Apart Off rel' x y := by
  cases x with
  | error e => exact follows
  | ok done =>
    intro good
    obtain ⟨b, ended, related⟩ | parted := follows good
    · exact .inl ⟨b, ended, weaker _ _ _ related⟩
    · exact .inr parted

/-- What the leading state keeps to: goodness is inherited backwards, being apart forwards. -/
def Ahead (c c' : γ) : Prop := (Good c' → Good c) ∧ (Apart c → Apart c')

/-- What the following state keeps to once it is off. -/
def StaysOff (b b' : β) : Prop := Off b → Off b'

theorem Ahead.trans (a b c : γ) (ab : Ahead Good Apart a b) (bc : Ahead Good Apart b c) :
    Ahead Good Apart a c := ⟨ab.1 ∘ bc.1, bc.2 ∘ ab.2⟩

theorem StaysOff.trans (a b c : β) (ab : StaysOff Off a b) (bc : StaysOff Off b c) :
    StaysOff Off a c := bc ∘ ab

/-- From `c` and `b` the run `y` follows the run `x` if `start` holds, and either way both keep what
was decided before. -/
structure Tracks (start : Prop) (c : γ) (b : β) (rel : α → γ → β → Prop)
    (x : Except ε (α × γ)) (y : Except ε (α × β)) : Prop where
  ahead : Moves (Ahead Good Apart) c x
  off : Moves (StaysOff Off) b y
  follows : start → Follows Good Apart Off rel x y

variable {Good Apart Off} {start : Prop} {c : γ} {b : β} {rel : α → γ → β → Prop}
  {rel' : α' → γ → β → Prop}

/-- Both runs end at once with the same value. -/
theorem Tracks.ok {v : α} {c' : γ} {b' : β} (ahead : Ahead Good Apart c c') (off : StaysOff Off b b')
    (related : start → Good c' → rel v c' b') :
    Tracks Good Apart Off start c b rel (.ok (v, c') : Except ε (α × γ)) (.ok (v, b')) :=
  ⟨.ok ahead, .ok off, fun started good => .inl ⟨b', rfl, related started good⟩⟩

/-- Both runs end at once and leave their states as they are. -/
theorem Tracks.stay {v : α} (related : start → rel v c b) :
    Tracks Good Apart Off start c b rel (.ok (v, c) : Except ε (α × γ)) (.ok (v, b)) :=
  .ok ⟨id, id⟩ id fun started _ => related started

theorem Tracks.error (e : ε) :
    Tracks Good Apart Off start c b rel (.error e : Except ε (α × γ)) (.error e) :=
  ⟨.error e, .error e, fun _ _ _ => rfl⟩

/-- Tracked runs compose: the first parts of both runs stay in step, or they part there and the rest
keeps them parted. -/
theorem Tracks.bind {x : Except ε (α × γ)} {y : Except ε (α × β)}
    {f : α × γ → Except ε (α' × γ)} {g : α × β → Except ε (α' × β)}
    (first : Tracks Good Apart Off start c b rel x y)
    (rest : ∀ v c b, Tracks Good Apart Off (rel v c b) c b rel' (f (v, c)) (g (v, b))) :
    Tracks Good Apart Off start c b rel' (x >>= f) (y >>= g) where
  ahead := first.ahead.bind (Ahead.trans Good Apart) fun v c => (rest v c b).ahead
  off := first.off.bind (StaysOff.trans Off) fun v b => (rest v c b).off
  follows started := by
    have first := first.follows started
    cases x with
    | error e =>
      intro good together
      rw [first good together]
      rfl
    | ok mid =>
      obtain ⟨v, c⟩ := mid
      change Follows Good Apart Off rel' (f (v, c)) (y >>= g)
      cases last : f (v, c) with
      | error e =>
        intro good together
        obtain ⟨b, rfl, related⟩ | ⟨apart, -⟩ := first (good c)
        · have followed := (rest v c b).follows related
          rw [last] at followed
          exact followed good together
        · exact absurd apart (together c)
      | ok done =>
        obtain ⟨v', c'⟩ := done
        intro good
        have between := (rest v c b).ahead v' c' last
        obtain ⟨b, rfl, related⟩ | ⟨apart, parted⟩ := first (between.1 good)
        · have followed := (rest v c b).follows related
          rw [last] at followed
          exact followed good
        · -- parted in the first half: the following run can only stay off
          refine .inr ⟨between.2 apart, fun r b' ended => ?_⟩
          cases y with
          | error e => cases ended
          | ok mid' =>
            exact (rest mid'.1 c mid'.2).off r b' ended (parted mid'.1 mid'.2 rfl)

end Follows

/-- A relation of two runs that holds of runs ending at once, and of composed runs when it holds of their
parts. -/
structure Composable {ε γ β : Type} (T : ∀ {α : Type}, Prop → γ → β → (α → γ → β → Prop) →
    Except ε (α × γ) → Except ε (α × β) → Prop) : Prop where
  stay : ∀ {α : Type} {start : Prop} {c : γ} {b : β} {rel : α → γ → β → Prop} {v : α},
    (start → rel v c b) → T start c b rel (.ok (v, c)) (.ok (v, b))
  bind : ∀ {α α' : Type} {start : Prop} {c : γ} {b : β} {rel : α → γ → β → Prop} {rel' : α' → γ → β → Prop}
    {x : Except ε (α × γ)} {y : Except ε (α × β)} {f : α × γ → Except ε (α' × γ)}
    {g : α × β → Except ε (α' × β)}, T start c b rel x y →
    (∀ v c b, T (rel v c b) c b rel' (f (v, c)) (g (v, b))) → T start c b rel' (x >>= f) (y >>= g)

theorem Tracks.composes {ε γ β : Type} (Good Apart : γ → Prop) (Off : β → Prop) :
    Composable (ε := ε) (Tracks Good Apart Off) := ⟨.stay, .bind⟩

/-- From a start where `start` holds, whatever the run `x` returns the run `y` returns too. -/
def Carries {ε α γ β : Type} (start : Prop) (_ : γ) (_ : β) (rel : α → γ → β → Prop)
    (x : Except ε (α × γ)) (y : Except ε (α × β)) : Prop :=
  start → ∀ v c, x = .ok (v, c) → ∃ b, y = .ok (v, b) ∧ rel v c b

theorem Carries.composes {ε γ β : Type} : Composable (ε := ε) (γ := γ) (β := β) Carries where
  stay related started v c ended := by
    cases ended
    exact ⟨_, rfl, related started⟩
  bind first rest started v c ended := by
    obtain ⟨⟨w, c'⟩, ran, ended⟩ := bind_eq_ok.mp ended
    obtain ⟨b', ran', related⟩ := first started w c' ran
    obtain ⟨b'', ended', related'⟩ := rest w c' b' related v c ended
    exact ⟨b'', bind_eq_ok.mpr ⟨_, ran', ended'⟩, related'⟩

end Ducktape.Lib
