import Scada.Library.Program

namespace Scada.Programs

variable {Call : Type} {Reply : Call → Type} {α β σ ι ρ : Type} {platform : Platform Call Reply σ ι}

-- A program part way through.
inductive Steps (platform : Platform Call Reply σ ι) (p : Program Call Reply α) (s : σ) :
    List ι → List (Event Call Reply σ) → Program Call Reply α → σ → Prop where
  | start : Steps platform p s [] [] p s
  | call {c : Call} {rest : Reply c → Program Call Reply α} (input : ι) : Steps platform p s inputs trace (.call c rest) now →
      Steps platform p s (inputs++[input])
        (trace++[⟨platform.arrive now input,c,platform.reply (platform.arrive now input) input c⟩])
        (rest (platform.reply (platform.arrive now input) input c))
        (platform.after (platform.arrive now input) c (platform.reply (platform.arrive now input) input c))

def feed : List ι → (Nat → ι) → Nat → ι
  | [],later => later
  | input::rest,later => fun n => match n with
    | 0 => input
    | n+1 => feed rest later n

theorem feed_append (earlier rest : List ι) (later : Nat → ι) :
    feed (earlier++rest) later = feed earlier (feed rest later) := by
  induction earlier with
  | nil => rfl
  | cons input earlier ih => rw [List.cons_append,feed,feed,ih]

theorem Steps.exec {p q : Program Call Reply α} {s now : σ} {inputs : List ι} {trace : List (Event Call Reply σ)}
    (steps : Steps platform p s inputs trace q now) (later : Nat → ι) : exec platform p (feed inputs later) s =
      ⟨(exec platform q later now).value,(exec platform q later now).state,trace++(exec platform q later now).trace⟩ := by
  induction steps generalizing later with
  | start => rfl
  | @call inputs trace now c rest input prior ih =>
    have one : Programs.exec platform (.call c rest) (feed [input] later) now =
      let met := platform.arrive now input
      let reply := platform.reply met input c
      let after := Programs.exec platform (rest reply) later (platform.after met c reply)
      ⟨after.value,after.state,⟨met,c,reply⟩::after.trace⟩ := rfl
    rw [feed_append,ih,one]
    simp

theorem Steps.returned {p : Program Call Reply α} {value : α} {s now : σ} {inputs : List ι}
    {trace : List (Event Call Reply σ)} (steps : Steps platform p s inputs trace (.done value) now) (later : Nat → ι) :
    Programs.exec platform p (feed inputs later) s = ⟨value,now,trace⟩ := by
  rw [steps.exec]
  simp [Programs.exec]

theorem Steps.meets {p q : Program Call Reply α} {s now : σ} {inputs : List ι} {trace : List (Event Call Reply σ)}
    {spec : Spec Call Reply ρ} {post : α → ρ → Prop} {relate : List (Event Call Reply σ) → σ → ρ → Prop}
    (describes : ∀ inputs, Describes platform inputs spec relate) (start : relate [] s r) (condition : Meets spec post p r)
    (steps : Steps platform p s inputs trace q now) : ∃ later, relate trace now later ∧ Meets spec post q later := by
  induction steps with
  | start => exact ⟨r,start,condition⟩
  | @call inputs trace now c rest input prior ih =>
    obtain ⟨middle,related,verified⟩ := ih
    have one := describes fun _ => input
    obtain ⟨met,moved,arrived⟩ := one.arrive related
    have replied := one.answer (c := c) arrived
    obtain ⟨permitted,later⟩ := verified met moved
    exact ⟨_,one.after arrived permitted replied,later _ replied⟩

theorem Steps.frame {allowed : Call → Prop} {p q : Program Call Reply α} {s now : σ} {inputs : List ι}
    {trace : List (Event Call Reply σ)} (f : σ → ρ) (arrive : ∀ s input, f (platform.arrive s input) = f s)
    (after : ∀ s c reply, allowed c → f (platform.after s c reply) = f s) (calls : Calls allowed p)
    (steps : Steps platform p s inputs trace q now) : f now = f s ∧ Calls allowed q := by
  induction steps with
  | start => exact ⟨rfl,calls⟩
  | call input prior ih =>
    obtain ⟨same,own,later⟩ := ih
    exact ⟨(after _ _ _ own).trans ((arrive _ _).trans same),later _⟩

theorem exec_frame {allowed : Call → Prop} {p : Program Call Reply α} (f : σ → ρ)
    (arrive : ∀ s input, f (platform.arrive s input) = f s)
    (after : ∀ s c reply, allowed c → f (platform.after s c reply) = f s) (calls : Calls allowed p) (inputs : Nat → ι) (s : σ) :
    f (exec platform p inputs s).state = f s := by
  induction p generalizing inputs s with
  | done value => rfl
  | call c rest ih => exact (ih _ (calls.2 _) _ _).trans ((after _ _ _ calls.1).trans (arrive _ _))

def Encloses (inner outer : Call → Prop) : Program Call Reply α → Prop
  | .done _ => False
  | .call c rest => (inner c ∧ ∀ reply, Encloses inner outer (rest reply)) ∨
      (outer c ∧ ∀ reply, ∃ value, rest reply = .done value)

theorem encloses_call {inner outer : Call → Prop} {c : Call} {rest : Reply c → Program Call Reply α} (own : inner c)
    (later : ∀ reply, Encloses inner outer (rest reply)) : Encloses inner outer (.call c rest) := .inl ⟨own,later⟩

theorem encloses_bind {inner outer : Call → Prop} {p : Program Call Reply α} {f : α → Program Call Reply β}
    (first : Calls inner p) (later : ∀ value, Encloses inner outer (f value)) : Encloses inner outer (p >>= f) := by
  induction p with
  | done value => exact later value
  | call c rest ih => exact .inl ⟨first.1,fun reply => ih reply (first.2 reply)⟩

end Scada.Programs
