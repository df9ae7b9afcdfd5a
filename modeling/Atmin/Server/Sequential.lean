import Atmin.Server.Log

/-!
# Handlers served alone

The handler combinators for a request that runs to its end with nothing in between.
-/

namespace Atmin

open Interaction

namespace Ends

variable {σ α β : Type} {exec : (o : Op) → σ → Res o → σ → Prop} {s : σ}
  {Q : Except ApiError β → σ → Prop}

/-- A sub-handler, by what is known of its result. -/
theorem andThen {h : Handler α} {f : α → Handler β} {P : Except ApiError α → σ → Prop}
    (first : Ends exec h.run s P) (failed : ∀ e t, P (.error e) t → Q (.error e) t)
    (rest : ∀ a t, P (.ok a) t → Ends exec (f a).run t Q) : Ends exec (h >>= f).run s Q := by
  rw [run_bind]
  refine Interaction.Ends.bind first fun r t after => ?_
  cases r with
  | ok a => exact rest a t after
  | error e => exact .ret (failed e t after)

theorem orFail {e : ApiError} {o : Option α} {f : α → Handler β}
    (failed : o = none → Q (.error e) s) (rest : ∀ a, o = some a → Ends exec (f a).run s Q) :
    Ends exec (Atmin.orFail e o >>= f).run s Q := by
  cases o with
  | none => exact .ret (failed rfl)
  | some a => exact rest a rfl

theorem checked {e : ApiError} {c : Bool} {f : Unit → Handler β}
    (failed : c = false → Q (.error e) s) (rest : c = true → Ends exec (f ()).run s Q) :
    Ends exec (check e c >>= f).run s Q := by
  cases c with
  | false => exact .ret (failed rfl)
  | true => exact rest rfl

/-- A request whose reply the handler inspects itself. -/
theorem call {o : Op} {f : Res o → Handler β}
    (rest : ∀ r t, exec o s r t → Ends exec (f r).run t Q) :
    Ends exec (Atmin.call (ask o) >>= f).run s Q := by
  simp only [run_bind, run_call, ask_bind, Prog.op_bind, Prog.ret_bind]
  exact .op rest

theorem read {key : String} {f : Data → Handler β}
    (failed : ∀ e t, exec (.getObject key) s (.error e) t → Q (.error (.ofStore e)) t)
    (rest : ∀ d t, exec (.getObject key) s (.ok d) t → Ends exec (f d).run t Q) :
    Ends exec (tryStore (ask (.getObject key)) >>= f).run s Q := by
  simp only [run_bind, run_tryStore, ask_bind, Prog.op_bind]
  refine .op fun r t served => ?_
  cases r with
  | ok d => exact rest d t served
  | error e => exact .ret (failed e t served)

end Ends

end Atmin
