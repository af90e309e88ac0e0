/-!
Programs over effects. A program is finished, or performs one operation and goes on with the answer.
It says nothing about who answers, so one program runs against a live target, a scripted one, or the
hypotheses of a theorem.
-/

namespace ManagedDebugger

/-- The operations a program may perform, with the type of the answer to each. -/
structure Effect where
  Op : Type
  Reply : Op → Type

inductive Program (E : Effect) (α : Type) where
  | done (a : α)
  | perform (op : E.Op) (next : E.Reply op → Program E α)

namespace Program

variable {E F : Effect} {α β γ : Type}

def bind : Program E α → (α → Program E β) → Program E β
  | done a, f => f a
  | perform op next, f => perform op fun reply => (next reply).bind f

instance : Monad (Program E) where
  pure := done
  bind := bind

/-- A single operation. -/
def ask (op : E.Op) : Program E (E.Reply op) := perform op done

/-- Carries every operation out by a program over other operations. -/
def translate (f : (op : E.Op) → Program F (E.Reply op)) : Program E α → Program F α
  | done a => done a
  | perform op next => (f op).bind fun reply => (next reply).translate f

@[simp] theorem pure_eq (a : α) : (pure a : Program E α) = done a := rfl

@[simp] theorem bind_eq (p : Program E α) (f : α → Program E β) : p >>= f = p.bind f := rfl

@[simp] theorem done_bind (a : α) (f : α → Program E β) : (done a).bind f = f a := rfl

@[simp] theorem perform_bind (op : E.Op) (next : E.Reply op → Program E α)
    (f : α → Program E β) :
    (perform op next).bind f = perform op fun reply => (next reply).bind f := rfl

@[simp] theorem bind_done (p : Program E α) : p.bind done = p := by
  induction p with
  | done a => rfl
  | perform op next ih => simp [ih]

theorem bind_assoc (p : Program E α) (f : α → Program E β) (g : β → Program E γ) :
    (p.bind f).bind g = p.bind fun a => (f a).bind g := by
  induction p with
  | done a => rfl
  | perform op next ih => simp [ih]

instance : LawfulMonad (Program E) := LawfulMonad.mk' (Program E)
  (fun p => bind_done p)
  (fun _ _ => rfl)
  (fun p f g => bind_assoc p f g)

theorem translate_bind (t : (op : E.Op) → Program F (E.Reply op)) (p : Program E α)
    (f : α → Program E β) :
    (p.bind f).translate t = (p.translate t).bind fun a => (f a).translate t := by
  induction p with
  | done a => rfl
  | perform op next ih => simp [translate, ih, bind_assoc]

end Program

end ManagedDebugger
