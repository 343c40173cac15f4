import Mathlib.Data.List.Basic

namespace Scada.Programs

-- Effectful code as a tree of calls; branches and early returns are Lean's own.
inductive Program (Call : Type) (Reply : Call → Type) (α : Type) where
  | done (value : α)
  | call (c : Call) (rest : Reply c → Program Call Reply α)

variable {Call : Type} {Reply : Call → Type} {α β σ ι ρ : Type}

namespace Program

def bind : Program Call Reply α → (α → Program Call Reply β) → Program Call Reply β
  | .done value,f => f value
  | .call c rest,f => .call c (fun reply => (rest reply).bind f)

instance : Monad (Program Call Reply) where
  pure := .done
  bind := Program.bind

@[simp] theorem pure_done (value : α) : (pure value : Program Call Reply α) = .done value := rfl
@[simp] theorem bind_done (value : α) (f : α → Program Call Reply β) : (Program.done value >>= f) = f value := rfl
@[simp] theorem bind_call (c : Call) (rest : Reply c → Program Call Reply α) (f : α → Program Call Reply β) :
    (Program.call c rest >>= f) = .call c (fun reply => rest reply >>= f) := rfl

def perform (c : Call) : Program Call Reply (Reply c) := .call c .done

@[simp] theorem bind_perform (c : Call) (f : Reply c → Program Call Reply β) :
    (perform c >>= f) = .call c f := rfl

end Program

-- Who answers the calls; `ι` is what the environment chooses before each.
structure Platform (Call : Type) (Reply : Call → Type) (σ ι : Type) where
  arrive : σ → ι → σ
  reply : σ → ι → (c : Call) → Reply c
  after : σ → (c : Call) → Reply c → σ

structure Event (Call : Type) (Reply : Call → Type) (σ : Type) where
  state : σ
  call : Call
  reply : Reply call

structure Outcome (Call : Type) (Reply : Call → Type) (σ α : Type) where
  value : α
  state : σ
  trace : List (Event Call Reply σ)

def exec (platform : Platform Call Reply σ ι) :
    Program Call Reply α → (Nat → ι) → σ → Outcome Call Reply σ α
  | .done value,_,s => ⟨value,s,[]⟩
  | .call c rest,inputs,s =>
    let met := platform.arrive s (inputs 0)
    let reply := platform.reply met (inputs 0) c
    let later := exec platform (rest reply) (fun n => inputs (n+1)) (platform.after met c reply)
    ⟨later.value,later.state,⟨met,c,reply⟩::later.trace⟩

variable {platform : Platform Call Reply σ ι}

-- What a proof wants to know of a platform, over an abstract state `ρ`.
structure Spec (Call : Type) (Reply : Call → Type) (ρ : Type) where
  moves : ρ → ρ → Prop
  permits : ρ → Call → Prop
  replies : ρ → (c : Call) → Reply c → Prop
  effect : ρ → (c : Call) → Reply c → ρ

-- Whatever the environment does, only permitted calls are made and `post` is met.
def Meets (spec : Spec Call Reply ρ) (post : α → ρ → Prop) : Program Call Reply α → ρ → Prop
  | .done value,r => post value r
  | .call c rest,r => ∀ met, spec.moves r met → spec.permits met c ∧
      ∀ reply, spec.replies met c reply → Meets spec post (rest reply) (spec.effect met c reply)

variable {spec : Spec Call Reply ρ} {post : α → ρ → Prop}

theorem meets_done {value : α} : Meets spec post (.done value) r ↔ post value r := Iff.rfl
theorem meets_call : Meets spec post (.call c rest) r ↔ ∀ met, spec.moves r met → spec.permits met c ∧
    ∀ reply, spec.replies met c reply → Meets spec post (rest reply) (spec.effect met c reply) := Iff.rfl

theorem meets_bind {post : β → ρ → Prop} {p : Program Call Reply α} {f : α → Program Call Reply β}
    (first : Meets spec (fun value r => Meets spec post (f value) r) p r) : Meets spec post (p >>= f) r := by
  induction p generalizing r with
  | done value => exact first
  | call c rest ih =>
    intro met moved
    obtain ⟨permitted,later⟩ := first met moved
    exact ⟨permitted,fun reply replied => ih reply (later reply replied)⟩

def Calls (allowed : Call → Prop) : Program Call Reply α → Prop
  | .done _ => True
  | .call c rest => allowed c ∧ ∀ reply, Calls allowed (rest reply)

theorem calls_call {allowed : Call → Prop} {c : Call} {rest : Reply c → Program Call Reply α} (own : allowed c)
    (later : ∀ reply, Calls allowed (rest reply)) : Calls allowed (.call c rest) := ⟨own,later⟩

theorem calls_bind {allowed : Call → Prop} {p : Program Call Reply α} {f : α → Program Call Reply β} (first : Calls allowed p)
    (later : ∀ value, Calls allowed (f value)) : Calls allowed (p >>= f) := by
  induction p with
  | done value => exact later value
  | call c rest ih => exact ⟨first.1,fun reply => ih reply (first.2 reply)⟩

theorem exec_calls {allowed : Call → Prop} {p : Program Call Reply α} (calls : Calls allowed p) (inputs : Nat → ι) (s : σ) :
    ∀ e ∈ (exec platform p inputs s).trace, allowed e.call := by
  induction p generalizing inputs s with
  | done value => exact nofun
  | call c rest ih =>
    intro e member
    rcases List.mem_cons.mp member with rfl | later
    · exact calls.1
    · exact ih _ (calls.2 _) _ _ e later

-- The frame rule.
theorem meets_frame (allowed : Call → Prop) {I : ρ → Prop} {p : Program Call Reply α}
    (moves : ∀ {r met}, I r → spec.moves r met → I met) (permits : ∀ {r c}, I r → allowed c → spec.permits r c)
    (quiet : ∀ {r c reply}, I r → allowed c → spec.replies r c reply → I (spec.effect r c reply))
    (calls : Calls allowed p) (start : I r) (framed : ∀ value last, I last → post value last) : Meets spec post p r := by
  induction p generalizing r with
  | done value => exact framed value r start
  | call c rest ih =>
    intro met moved
    have valid := moves start moved
    exact ⟨permits valid calls.1,fun reply replied => ih reply (calls.2 reply) (quiet valid calls.1 replied)⟩

structure Describes (platform : Platform Call Reply σ ι) (inputs : Nat → ι) (spec : Spec Call Reply ρ)
    (relate : List (Event Call Reply σ) → σ → ρ → Prop) : Prop where
  arrive : relate trace s r →
    ∃ met, spec.moves r met ∧ relate trace (platform.arrive s (inputs trace.length)) met
  answer : relate trace s r → spec.replies r c (platform.reply s (inputs trace.length) c)
  after : relate trace s r → spec.permits r c → spec.replies r c answered →
    relate (trace++[⟨s,c,answered⟩]) (platform.after s c answered) (spec.effect r c answered)

theorem meets_exec {inputs : Nat → ι} {relate : List (Event Call Reply σ) → σ → ρ → Prop}
    (describes : Describes platform inputs spec relate) {p : Program Call Reply α}
    (start : relate trace s r) (condition : Meets spec post p r) :
    ∃ last, relate (trace++(exec platform p (fun n => inputs (n+trace.length)) s).trace)
      (exec platform p (fun n => inputs (n+trace.length)) s).state last ∧
      post (exec platform p (fun n => inputs (n+trace.length)) s).value last := by
  induction p generalizing trace s r with
  | done value => exact ⟨r,by simpa [exec] using start,condition⟩
  | call c rest ih =>
    obtain ⟨met,moved,arrived⟩ := describes.arrive start
    have replied := describes.answer (c := c) arrived
    obtain ⟨permitted,later⟩ := condition met moved
    have tail := ih _ (describes.after arrived permitted replied) (later _ replied)
    have shift : ∀ n : Nat, n+(trace.length+1) = n+1+trace.length := fun n => by omega
    simpa only [exec,List.append_assoc,List.singleton_append,List.length_append,List.length_singleton,shift,
      Nat.zero_add] using tail

theorem meets_run {inputs : Nat → ι} {relate : List (Event Call Reply σ) → σ → ρ → Prop}
    (describes : Describes platform inputs spec relate) {p : Program Call Reply α}
    (start : relate [] s r) (condition : Meets spec post p r) :
    ∃ last, relate (exec platform p inputs s).trace (exec platform p inputs s).state last ∧
      post (exec platform p inputs s).value last := meets_exec describes start condition

def tally (platform : Platform Call Reply σ ι) (count : σ → ι → Nat) : Program Call Reply α → (Nat → ι) → σ → Nat
  | .done _,_,_ => 0
  | .call c rest,inputs,s =>
    let met := platform.arrive s (inputs 0)
    let reply := platform.reply met (inputs 0) c
    count s (inputs 0)+tally platform count (rest reply) (fun n => inputs (n+1)) (platform.after met c reply)

theorem exec_balance (platform : Platform Call Reply σ ι) (level : σ → Nat) {count : σ → ι → Nat}
    (spent : List (Event Call Reply σ) → Nat) (none : spent [] = 0)
    (arrive : ∀ s input, level (platform.arrive s input) = level s+count s input)
    (after : ∀ s c reply later, level (platform.after s c reply)+spent (⟨s,c,reply⟩::later) = level s+spent later)
    (p : Program Call Reply α) (inputs : Nat → ι) (s : σ) :
    spent (exec platform p inputs s).trace+level (exec platform p inputs s).state = level s+tally platform count p inputs s := by
  induction p generalizing inputs s with
  | done value => simp [exec,tally,none]
  | call c rest ih =>
    have met := arrive s (inputs 0)
    have later := ih (platform.reply (platform.arrive s (inputs 0)) (inputs 0) c) (fun n => inputs (n+1))
      (platform.after (platform.arrive s (inputs 0)) c (platform.reply (platform.arrive s (inputs 0)) (inputs 0) c))
    have own := after (platform.arrive s (inputs 0)) c (platform.reply (platform.arrive s (inputs 0)) (inputs 0) c)
      (exec platform (rest (platform.reply (platform.arrive s (inputs 0)) (inputs 0) c)) (fun n => inputs (n+1))
        (platform.after (platform.arrive s (inputs 0)) c (platform.reply (platform.arrive s (inputs 0)) (inputs 0) c))).trace
    simp only [exec,tally]
    omega

-- A platform read through `view` does and answers nothing that the environment
-- of a freer one could not choose.
structure Mimics (platform : Platform Call Reply σ ι) (freer : Platform Call Reply τ κ) (view : σ → τ) (choose : σ → ι → κ) :
    Prop where
  arrive : ∀ s input, freer.arrive (view s) (choose s input) = view (platform.arrive s input)
  reply : ∀ s input c, freer.reply (view (platform.arrive s input)) (choose s input) c =
    platform.reply (platform.arrive s input) input c
  after : ∀ s c reply, freer.after (view s) c reply = view (platform.after s c reply)

def Event.through (view : σ → τ) (e : Event Call Reply σ) : Event Call Reply τ := ⟨view e.state,e.call,e.reply⟩

def Outcome.through (view : σ → τ) (o : Outcome Call Reply σ α) : Outcome Call Reply τ α :=
  ⟨o.value,view o.state,o.trace.map (·.through view)⟩

theorem exec_mimics {freer : Platform Call Reply τ κ} {view : σ → τ} {choose : σ → ι → κ}
    (mimics : Mimics platform freer view choose) (p : Program Call Reply α) (inputs : Nat → ι) (s : σ) :
    ∃ choices, exec freer p choices (view s) = (exec platform p inputs s).through view := by
  induction p generalizing inputs s with
  | done value => exact ⟨fun n => choose s (inputs n),rfl⟩
  | call c rest ih =>
    let met := platform.arrive s (inputs 0)
    let reply := platform.reply met (inputs 0) c
    obtain ⟨choices,later⟩ := ih reply (fun n => inputs (n+1)) (platform.after met c reply)
    let all : Nat → κ := fun n => n.casesOn (choose s (inputs 0)) choices
    refine ⟨all,?_⟩
    have arrived : freer.arrive (view s) (all 0) = view met := mimics.arrive s (inputs 0)
    have replied : freer.reply (view met) (all 0) c = reply := mimics.reply s (inputs 0) c
    have moved : freer.after (view met) c reply = view (platform.after met c reply) := mimics.after met c reply
    simp only [exec,arrived,replied,moved]
    rw [show (fun n => all (n+1)) = choices from rfl,later]
    rfl

end Scada.Programs
