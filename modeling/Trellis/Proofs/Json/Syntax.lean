import Trellis.Json.Doc

/-!
# The tokens of a syntax tree

A syntax tree has one sequence of tokens, and the reader takes it back to the tree wherever a value
may stand (`Doc.steps_tokens`), provided that every level it opens on the way is within the limit.
The induction is on the tree; a container half read is a state of the reader, so the statement for
its remaining items or members starts in that state.
-/

namespace Trellis.Json.Doc

mutual

/-- The tokens of a syntax tree. -/
def tokens : Doc → List Token
  | null => [.null]
  | bool b => [.bool b]
  | number n => [.number n]
  | string s => [.string s]
  | array [] => [.openArray, .closeArray]
  | array (d :: ds) => .openArray :: (tokens d ++ (itemTokens ds ++ [.closeArray]))
  | object [] => [.openObject, .closeObject]
  | object ((k, d) :: ms) =>
    .openObject :: .string k :: .colon :: (tokens d ++ (memberTokens ms ++ [.closeObject]))

/-- The tokens of the items behind the first one. -/
def itemTokens : List Doc → List Token
  | [] => []
  | d :: ds => .comma :: (tokens d ++ itemTokens ds)

/-- The tokens of the members behind the first one. -/
def memberTokens : List (Key × Doc) → List Token
  | [] => []
  | (k, d) :: ms => .comma :: .string k :: .colon :: (tokens d ++ memberTokens ms)

end

mutual

/-- How deeply arrays and objects are nested. -/
def depth : Doc → Nat
  | array ds => depthItems ds + 1
  | object ms => depthMembers ms + 1
  | _ => 0

def depthItems : List Doc → Nat
  | [] => 0
  | d :: ds => max (depth d) (depthItems ds)

def depthMembers : List (Key × Doc) → Nat
  | [] => 0
  | (_, d) :: ms => max (depth d) (depthMembers ms)

end

/-- The limit leaves room for some levels around `n` open ones. -/
def Room (limit : Option Nat) (n levels : Nat) : Prop :=
  ∀ k < n + levels, roomB limit k = true

theorem Room.le {limit : Option Nat} {n m levels less : Nat} (h : Room limit n levels)
    (le : m + less ≤ n + levels) : Room limit m less := fun k hk => h k (by omega)

theorem room_none (n levels : Nat) : Room none n levels := fun _ _ => rfl

theorem room_some {most n levels : Nat} (h : n + levels ≤ most) : Room (some most) n levels :=
  fun k hk => by simp only [roomB, decide_eq_true_eq]; omega

/-- Behind an opening bracket an item is read as any value is. -/
theorem steps_firstItem (limit : Option Nat) (around : List Frame) (d : Doc) (ts : List Token) :
    steps limit (.firstItem around) (tokens d ++ ts)
      = steps limit (.value (.array [] :: around)) (tokens d ++ ts) := by
  match d with
  | null | bool _ | number _ | string _ => rfl
  | array [] | array (_ :: _) => rfl
  | object [] | object ((_, _) :: _) => rfl

theorem steps_openArray {limit : Option Nat} {around : List Frame}
    (room : roomB limit around.length = true) (ts : List Token) :
    steps limit (.value around) (.openArray :: ts) = steps limit (.firstItem around) ts := by
  rw [steps_cons, step, begin, if_pos room]
  rfl

theorem steps_openObject {limit : Option Nat} {around : List Frame}
    (room : roomB limit around.length = true) (ts : List Token) :
    steps limit (.value around) (.openObject :: ts) = steps limit (.firstKey around) ts := by
  rw [steps_cons, step, begin, if_pos room]
  rfl

mutual

/-- **Tokens are read back.**  Where a value may stand, the tokens of a tree deliver the tree. -/
theorem steps_tokens (limit : Option Nat) (around : List Frame) (ts : List Token) : (d : Doc) →
    Room limit around.length d.depth →
    steps limit (.value around) (tokens d ++ ts) = steps limit (.deliver d around) ts
  | null, _ | bool _, _ | number _, _ | string _, _ => by simp only [tokens]; rfl
  | array [], room => by
    rw [tokens, List.cons_append, steps_openArray (room _ (by simp [depth]))]
    rfl
  | array (d :: ds), room => by
    rw [depth, depthItems] at room
    rw [tokens, List.cons_append, steps_openArray (room _ (by omega)), List.append_assoc,
      List.append_assoc, steps_firstItem,
      steps_tokens limit _ _ d (room.le (by rw [List.length_cons]; omega))]
    exact steps_items limit [d] around ts ds (room.le (by omega))
  | object [], room => by
    rw [tokens, List.cons_append, steps_openObject (room _ (by simp [depth]))]
    rfl
  | object ((k, d) :: ms), room => by
    rw [depth, depthMembers] at room
    rw [tokens, List.cons_append, steps_openObject (room _ (by omega)), List.cons_append,
      List.cons_append, List.append_assoc, List.append_assoc]
    have value := steps_tokens limit (.object [] k :: around)
      (memberTokens ms ++ ([.closeObject] ++ ts)) d (room.le (by rw [List.length_cons]; omega))
    exact value.trans (steps_members limit [(k, d)] around ts ms (room.le (by omega)))

/-- Behind an item, the remaining items complete the array. -/
theorem steps_items (limit : Option Nat) (items : List Doc) (around : List Frame)
    (ts : List Token) : (ds : List Doc) → Room limit (around.length + 1) (depthItems ds) →
    steps limit (.afterItem items around) (itemTokens ds ++ ([.closeArray] ++ ts))
      = steps limit (.deliver (.array (items.reverse ++ ds)) around) ts
  | [], _ => by rw [List.append_nil]; rfl
  | d :: ds, room => by
    rw [depthItems] at room
    rw [itemTokens, List.cons_append, List.append_assoc]
    have value := steps_tokens limit (.array items :: around)
      (itemTokens ds ++ ([.closeArray] ++ ts)) d (room.le (by rw [List.length_cons]; omega))
    have rest := steps_items limit (d :: items) around ts ds (room.le (by omega))
    rw [List.reverse_cons, List.append_assoc] at rest
    exact value.trans rest

/-- Behind a member, the remaining members complete the object. -/
theorem steps_members (limit : Option Nat) (members : List (Key × Doc)) (around : List Frame)
    (ts : List Token) : (ms : List (Key × Doc)) → Room limit (around.length + 1) (depthMembers ms) →
    steps limit (.afterMember members around) (memberTokens ms ++ ([.closeObject] ++ ts))
      = steps limit (.deliver (.object (members.reverse ++ ms)) around) ts
  | [], _ => by rw [List.append_nil]; rfl
  | (k, d) :: ms, room => by
    rw [depthMembers] at room
    rw [memberTokens, List.cons_append, List.cons_append, List.cons_append, List.append_assoc]
    have value := steps_tokens limit (.object members k :: around)
      (memberTokens ms ++ ([.closeObject] ++ ts)) d (room.le (by rw [List.length_cons]; omega))
    have rest := steps_members limit ((k, d) :: members) around ts ms (room.le (by omega))
    rw [List.reverse_cons, List.append_assoc] at rest
    exact value.trans rest

end

/-- The reader finishes with the tree whose tokens it is given. -/
theorem steps_tokens_finish {limit : Option Nat} {d : Doc} (room : Room limit 0 d.depth) :
    (steps limit (.value []) (tokens d)).bind finish = .ok d := by
  have whole := steps_tokens limit [] [] d room
  rw [List.append_nil, steps_nil] at whole
  rw [whole]
  rfl

end Trellis.Json.Doc
