import Mathlib.Data.List.Basic

/-! Hashes that absorb one symbol after the other, and what they tell apart. -/
namespace Absorbing

universe u v
variable {Hash : Type u} {Symbol : Type v} {absorb : Hash → Symbol → Hash}

/-- No symbol makes two hashes meet, and no hash makes two symbols meet. -/
structure Separates (absorb : Hash → Symbol → Hash) : Prop where
  hashes : ∀ symbol, Function.Injective fun hash => absorb hash symbol
  symbols : ∀ hash, Function.Injective (absorb hash)

/-- What is absorbed later never hides a difference. -/
theorem Separates.foldl_injective (h : Separates absorb) (input : List Symbol) :
    Function.Injective fun hash => input.foldl absorb hash := by
  induction input with
  | nil => exact fun _ _ hSame => hSame
  | cons symbol rest ih => exact fun _ _ hSame => h.hashes symbol (ih hSame)

theorem Separates.append_iff (h : Separates absorb) (hash : Hash)
    (input input' suffix : List Symbol) :
    (input ++ suffix).foldl absorb hash = (input' ++ suffix).foldl absorb hash ↔
      input.foldl absorb hash = input'.foldl absorb hash := by
  rw [List.foldl_append, List.foldl_append]
  exact (h.foldl_injective suffix).eq_iff

/-- A change of one symbol is always told. -/
theorem Separates.replaced_iff (h : Separates absorb) (hash : Hash) (before after : List Symbol)
    (symbol symbol' : Symbol) :
    (before ++ symbol :: after).foldl absorb hash =
        (before ++ symbol' :: after).foldl absorb hash ↔ symbol = symbol' := by
  rw [List.append_cons before symbol, List.append_cons before symbol', h.append_iff,
    List.foldl_concat, List.foldl_concat]
  exact (h.symbols _).eq_iff

end Absorbing
