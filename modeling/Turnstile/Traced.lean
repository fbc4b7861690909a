/-!
# Values with a trace

A computation that also reports what happened, earliest entry first. The trace
never influences the value.
-/

namespace Turnstile

structure Traced (ε α : Type) where
  value : α
  trace : List ε

namespace Traced

variable {ε α β : Type}

instance : Monad (Traced ε) where
  pure a := ⟨a, []⟩
  bind x f := ⟨(f x.value).value, x.trace ++ (f x.value).trace⟩

/-- Reports the entries. -/
def emit (entries : List ε) : Traced ε PUnit := ⟨⟨⟩, entries⟩

@[simp] theorem value_pure (a : α) : (pure a : Traced ε α).value = a := rfl
@[simp] theorem trace_pure (a : α) : (pure a : Traced ε α).trace = [] := rfl
@[simp] theorem value_bind (x : Traced ε α) (f : α → Traced ε β) :
    (x >>= f).value = (f x.value).value := rfl
@[simp] theorem trace_bind (x : Traced ε α) (f : α → Traced ε β) :
    (x >>= f).trace = x.trace ++ (f x.value).trace := rfl
@[simp] theorem trace_emit (entries : List ε) : (emit entries).trace = entries := rfl

theorem map_value (f : α → β) (x : Traced ε α) : (f <$> x).value = f x.value := rfl

instance : LawfulMonad (Traced ε) where
  map_const := rfl
  id_map x := by simp [Functor.map]
  seqLeft_eq _ _ := by simp [SeqLeft.seqLeft, Seq.seq, Functor.map]
  seqRight_eq _ _ := by simp [SeqRight.seqRight, Seq.seq, Functor.map]
  pure_seq _ _ := by simp [Seq.seq, Functor.map, pure]
  bind_pure_comp _ _ := rfl
  bind_map _ _ := rfl
  pure_bind _ _ := by simp [bind, pure]
  bind_assoc _ _ _ := by simp [bind, List.append_assoc]

end Traced

end Turnstile
