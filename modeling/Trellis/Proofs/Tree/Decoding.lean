import Trellis.Proofs.Asking
import Trellis.Proofs.Tree.Routes
import Trellis.Tree.Semantic

/-!
# The decoding of a tree

The walk with a stack of half-built nodes is the decoding by recursion (`decode_eq_decodeRec`).
From the recursion everything else is read off the nodes in pre-order: which of them the tokenizer
is asked for, which refusal is reported, and that without one the tree keeps its shape.  What a
decoded node has to say of the raw one is `DecodedFrom`, field by field and with the formula of each
probability; it leaves no choice (`decodedFrom_iff`).
-/

namespace Trellis

/-! ## Probabilities -/

/-- The second double is the exponential of the first, which is one at either zero. -/
def IsExponential (x y : Float) : Prop := if x == 0.0 then y = 1.0 else y = Float.exp x

theorem isExponential_iff {x y : Float} : IsExponential x y ↔ y = exponential x := by
  unfold IsExponential exponential
  split <;> exact Iff.rfl

/-! ## One node -/

/-- What a decoded node says of the raw node that it comes from. -/
structure DecodedFrom (t : Tokenizer ρ) (n : RawNode) (s : SemanticNode) : Prop where
  action : s.action = n.action
  tokens : s.tokens = n.tokens
  length : s.length = n.length
  logprobs : s.logprobs = n.logprobs
  logprob : s.logprob = n.logprob
  pruned : s.pruned = n.pruned
  /-- Without tokens there is no text. -/
  silent : n.tokens = [] → s.text = ""
  spoken : n.tokens ≠ [] → t.detokenize n.tokens = .ok s.text
  /-- The exponential of `-logprob / length`; no length is certain, and what is not a number changes
  its sign. -/
  probability :
    if n.length = 0 then s.probability = Double.ofFloat 1.0
    else if n.logprob.isNaN then s.probability = (Double.ofFloat n.logprob).negate
    else ∃ p, IsExponential (-n.logprob / n.length.toFloat) p ∧ s.probability = Double.ofFloat p
  /-- The exponential of minus the mean of the log-probabilities; no tokens are certain. -/
  localProbability :
    if n.logprobs = [] then s.localProbability = 1.0
    else IsExponential (-(n.logprobs.foldl (· + ·) 0.0 / Float.ofNat n.logprobs.length))
      s.localProbability
  rawProbability : IsExponential (-n.logprob) s.rawProbability

namespace RawNode

/-- The tokenizer is asked for the text of this node. -/
def asks (n : RawNode) : Bool := !n.tokens.isEmpty

/-- The call for the text of a node. -/
def call (n : RawNode) : Call := .detokenize n.tokens

/-- The refusal that a node meets when it is asked for. -/
def refusal? (t : Tokenizer ρ) (n : RawNode) : Option ρ :=
  if n.asks then
    match t.detokenize n.tokens with
    | .ok _ => none
    | .error cause => some cause
  else none

/-- The decoded node; without tokens its text is empty. -/
def decoded (t : Tokenizer ρ) (n : RawNode) : SemanticNode :=
  n.withText (if n.asks then (t.detokenize n.tokens).toOption.getD "" else "")

theorem outcome_decode (t : Tokenizer ρ) (n : RawNode) :
    Asking.outcome (n.decode t) = match n.refusal? t with
      | none => .ok (n.decoded t)
      | some cause => .error (.node n.action cause) := by
  unfold decode refusal? decoded asks
  by_cases empty : n.tokens.isEmpty
  · simp [empty]
  · rw [if_neg empty, Asking.outcome_bind, Asking.outcome_ofCall]
    cases h : t.detokenize n.tokens with
    | error cause => simp [Tokenizer.askText, h, empty, Except.bind]
    | ok text => simp [Tokenizer.askText, h, empty, Except.bind, Except.toOption]

theorem pathProbability_iff {logprob : Float} {length : UInt32} {p : Double} :
    (if length = 0 then p = Double.ofFloat 1.0
      else if logprob.isNaN then p = (Double.ofFloat logprob).negate
      else ∃ q, IsExponential (-logprob / length.toFloat) q ∧ p = Double.ofFloat q)
      ↔ p = pathProbability logprob length := by
  unfold pathProbability
  split
  · rfl
  · split
    · rfl
    · simp only [isExponential_iff, exists_eq_left]

theorem localProbability_iff {logprobs : List Float} {p : Float} :
    (if logprobs = [] then p = 1.0
      else IsExponential (-(logprobs.foldl (· + ·) 0.0 / Float.ofNat logprobs.length)) p)
      ↔ p = Trellis.localProbability logprobs := by
  unfold Trellis.localProbability
  cases logprobs with
  | nil => rfl
  | cons x xs => exact isExponential_iff

theorem text_decoded_iff {t : Tokenizer ρ} {n : RawNode} {text : String} :
    ((n.tokens = [] → text = "") ∧ (n.tokens ≠ [] → t.detokenize n.tokens = .ok text))
      ↔ n.refusal? t = none ∧ text = (n.decoded t).text := by
  unfold refusal? decoded withText asks
  by_cases empty : n.tokens = []
  · simp [empty]
  · cases answer : t.detokenize n.tokens with
    | error cause => simp [empty]
    | ok said => simpa [empty, Except.toOption] using eq_comm

/-- What a decoded node says leaves no choice. -/
theorem decodedFrom_iff {t : Tokenizer ρ} {n : RawNode} {s : SemanticNode} :
    DecodedFrom t n s ↔ n.refusal? t = none ∧ s = n.decoded t := by
  constructor
  · intro h
    have path := pathProbability_iff.1 h.probability
    have own := localProbability_iff.1 h.localProbability
    have raw := isExponential_iff.1 h.rawProbability
    obtain ⟨fine, text⟩ := text_decoded_iff.1 ⟨h.silent, h.spoken⟩
    exact ⟨fine, SemanticNode.ext h.action text h.tokens h.length h.logprobs h.logprob path own raw
      h.pruned⟩
  · rintro ⟨fine, rfl⟩
    obtain ⟨silent, spoken⟩ := text_decoded_iff.2 ⟨fine, rfl⟩
    exact {
      action := rfl
      tokens := rfl
      length := rfl
      logprobs := rfl
      logprob := rfl
      pruned := rfl
      silent
      spoken
      probability := pathProbability_iff.2 rfl
      localProbability := localProbability_iff.2 rfl
      rawProbability := isExponential_iff.2 rfl }

theorem calls_decode (t : Tokenizer ρ) (n : RawNode) :
    Asking.calls (n.decode t) = if n.asks then [n.call] else [] := by
  unfold decode asks call
  by_cases empty : n.tokens.isEmpty
  · simp [empty]
  · rw [if_neg empty, Asking.calls_bind, Asking.calls_ofCall, Asking.outcome_ofCall]
    cases h : t.detokenize n.tokens <;> simp [Tokenizer.askText, h, empty]

/-- The failure at the first node that is refused. -/
def firstFailure? (t : Tokenizer ρ) (ns : List RawNode) : Option (DecodeError ρ) :=
  ns.findSome? fun n => (n.refusal? t).map (DecodeError.node n.action)

theorem firstFailure?_cons (t : Tokenizer ρ) (n : RawNode) (ns : List RawNode) :
    firstFailure? t (n :: ns)
      = ((n.refusal? t).map (DecodeError.node n.action)).or (firstFailure? t ns) := by
  rw [firstFailure?, List.findSome?_cons]
  cases n.refusal? t <;> rfl

theorem firstFailure?_append (t : Tokenizer ρ) (ms ns : List RawNode) :
    firstFailure? t (ms ++ ns) = (firstFailure? t ms).or (firstFailure? t ns) :=
  List.findSome?_append

theorem firstFailure?_eq_none_iff {t : Tokenizer ρ} {ns : List RawNode} :
    firstFailure? t ns = none ↔ ∀ n ∈ ns, n.refusal? t = none := by
  simp [firstFailure?, List.findSome?_eq_none_iff]

/-- The calls for some nodes in order, up to the first one that is refused. -/
def callsFor (t : Tokenizer ρ) : List RawNode → List Call
  | [] => []
  | n :: rest =>
    (if n.asks then [n.call] else []) ++ if (n.refusal? t).isSome then [] else callsFor t rest

theorem callsFor_append (t : Tokenizer ρ) (ms ns : List RawNode) :
    callsFor t (ms ++ ns)
      = callsFor t ms ++ if (firstFailure? t ms).isSome then [] else callsFor t ns := by
  induction ms with
  | nil => rfl
  | cons m ms ih =>
    rw [List.cons_append, callsFor, callsFor, ih, firstFailure?_cons]
    cases m.refusal? t with
    | none =>
      rw [Option.map_none, Option.none_or]
      simp only [Option.isSome_none, Bool.false_eq_true, if_false, List.append_assoc]
    | some cause => simp

/-- Where nothing is refused, every node with tokens is asked for once. -/
theorem callsFor_of_forall {t : Tokenizer ρ} {ns : List RawNode}
    (h : ∀ n ∈ ns, n.refusal? t = none) : callsFor t ns = (ns.filter asks).map call := by
  induction ns with
  | nil => rfl
  | cons n ns ih =>
    have hn : n.refusal? t = none := h n (by simp)
    rw [callsFor, hn, ih fun m hm => h m (by simp [hm])]
    by_cases asked : n.asks <;> simp [asked]

theorem asks_of_refusal {t : Tokenizer ρ} {n : RawNode} {cause : ρ}
    (h : n.refusal? t = some cause) : n.asks = true := by
  unfold refusal? at h
  split at h
  · assumption
  · cases h

/-- A node that is refused is asked for, and none behind it. -/
theorem callsFor_of_refused {t : Tokenizer ρ} {before : List RawNode} {n : RawNode}
    {cause : ρ} (h : ∀ m ∈ before, m.refusal? t = none) (hn : n.refusal? t = some cause)
    (after : List RawNode) :
    callsFor t (before ++ n :: after) = ((before ++ [n]).filter asks).map call := by
  rw [callsFor_append, firstFailure?_eq_none_iff.2 h, callsFor_of_forall h, callsFor, hn]
  simp [asks_of_refusal hn]

end RawNode

namespace RawTree

open Asking RawNode

/-! ## The walk is the recursion -/

mutual

/-- A subtree in front of a frame is decoded and put among the finished children. -/
theorem walk_cons (t : Tokenizer ρ) (label : SemanticNode) (done : List SemanticTree)
    (rest : List RawTree) (stack : List Frame) : (c : RawTree) →
    walk t (⟨label, done, c :: rest⟩ :: stack)
      = decodeRec t c >>= fun d => walk t (⟨label, d :: done, rest⟩ :: stack)
  | .node n children => by
    rw [walk, decodeRec, bind_assoc]
    congr 1
    funext child
    have below := walk_append t child [] [] (⟨label, done, rest⟩ :: stack) children
    rw [List.append_nil] at below
    rw [below, bind_assoc]
    congr 1
    funext ds
    rw [List.append_nil, walk, List.reverse_reverse, pure_bind]

/-- So is every subtree of a forest, one after the other. -/
theorem walk_append (t : Tokenizer ρ) (label : SemanticNode) (done : List SemanticTree)
    (rest : List RawTree) (stack : List Frame) : (cs : List RawTree) →
    walk t (⟨label, done, cs ++ rest⟩ :: stack)
      = decodeRecAll t cs >>= fun ds => walk t (⟨label, ds.reverse ++ done, rest⟩ :: stack)
  | [] => by rw [decodeRecAll, pure_bind]; rfl
  | c :: cs => by
    rw [List.cons_append, walk_cons, decodeRecAll, bind_assoc]
    congr 1
    funext d
    rw [walk_append, bind_assoc]
    congr 1
    funext ds
    rw [pure_bind, List.reverse_cons, List.append_assoc]
    rfl

end

theorem decode_eq_decodeRec (t : Tokenizer ρ) (raw : RawTree) : raw.decode t = raw.decodeRec t := by
  obtain ⟨n, children⟩ := raw
  rw [decode, decodeRec]
  congr 1
  funext label
  have whole := walk_append t label [] [] [] children
  rw [List.append_nil] at whole
  rw [Tree.children, whole]
  congr 1
  funext ds
  rw [List.append_nil, walk, List.reverse_reverse]

/-! ## What the recursion gives -/

mutual

theorem outcome_decodeRec (t : Tokenizer ρ) : (raw : RawTree) →
    outcome (raw.decodeRec t) = match firstFailure? t raw.preorder with
      | none => .ok (raw.map (decoded t))
      | some e => .error e
  | .node n children => by
    rw [decodeRec, outcome_bind, outcome_decode, Tree.preorder, firstFailure?_cons]
    cases n.refusal? t with
    | some cause => rfl
    | none =>
      simp only [Except.bind, Option.map_none, Option.none_or]
      rw [outcome_bind_pure, outcome_decodeRecAll]
      cases firstFailure? t (Tree.preorderAll children) <;> rfl

theorem outcome_decodeRecAll (t : Tokenizer ρ) : (cs : List RawTree) →
    outcome (decodeRecAll t cs) = match firstFailure? t (Tree.preorderAll cs) with
      | none => .ok (Tree.mapAll (decoded t) cs)
      | some e => .error e
  | [] => rfl
  | c :: cs => by
    rw [decodeRecAll, outcome_bind, outcome_decodeRec, Tree.preorderAll, firstFailure?_append]
    cases firstFailure? t c.preorder with
    | some e => rfl
    | none =>
      simp only [Except.bind, Option.none_or]
      rw [outcome_bind_pure, outcome_decodeRecAll]
      cases firstFailure? t (Tree.preorderAll cs) <;> rfl

end

mutual

theorem calls_decodeRec (t : Tokenizer ρ) : (raw : RawTree) →
    calls (raw.decodeRec t) = callsFor t raw.preorder
  | .node n children => by
    rw [decodeRec, calls_bind, calls_decode, outcome_decode, Tree.preorder, callsFor]
    cases n.refusal? t with
    | some cause => rfl
    | none =>
      simp only [Option.isSome_none, Bool.false_eq_true, if_false]
      rw [calls_bind_pure, calls_decodeRecAll]

theorem calls_decodeRecAll (t : Tokenizer ρ) : (cs : List RawTree) →
    calls (decodeRecAll t cs) = callsFor t (Tree.preorderAll cs)
  | [] => rfl
  | c :: cs => by
    rw [decodeRecAll, calls_bind, calls_decodeRec, outcome_decodeRec, Tree.preorderAll,
      callsFor_append]
    cases firstFailure? t c.preorder with
    | some e => rfl
    | none =>
      simp only [Option.isSome_none, Bool.false_eq_true, if_false]
      rw [calls_bind_pure, calls_decodeRecAll]

end

/-- A tree is decoded when no node is refused, and keeps its shape. -/
theorem decode_eq_ok_iff {t : Tokenizer ρ} {raw : RawTree} {tree : SemanticTree} :
    outcome (raw.decode t) = .ok tree
      ↔ (∀ n ∈ raw.preorder, n.refusal? t = none) ∧ tree = raw.map (decoded t) := by
  rw [decode_eq_decodeRec, outcome_decodeRec, ← firstFailure?_eq_none_iff]
  cases firstFailure? t raw.preorder with
  | none => simp [eq_comm]
  | some e => simp

/-- A tree is decoded to the tree of its shape whose nodes say what theirs are to say. -/
theorem decode_eq_ok_iff_alike {t : Tokenizer ρ} {raw : RawTree} {tree : SemanticTree} :
    outcome (raw.decode t) = .ok tree ↔ raw.Alike (DecodedFrom t) tree := by
  have single : ∀ n s, DecodedFrom t n s ↔ n.refusal? t = none ∧ s = n.decoded t :=
    fun n s => decodedFrom_iff
  rw [decode_eq_ok_iff, Tree.alike_iff single]

/-- **The decoding of a tree.**  It is the recursion.  What it gives is the tree of the same shape,
child by child in order, each node of which says of its raw node what `DecodedFrom` lists, and no
other.  Either no node is refused: there is such a tree, and each node with tokens is asked for
once, in pre-order.  Or a first node in pre-order is refused: the failure names its action, and the
calls are those up to this node.  The walk never runs out of nodes. -/
theorem decode_in_preorder (t : Tokenizer ρ) (raw : RawTree) :
    raw.decode t = raw.decodeRec t
    ∧ (∀ tree, outcome (raw.decode t) = .ok tree ↔ raw.Alike (DecodedFrom t) tree)
    ∧ outcome (raw.decode t) ≠ .error .rootless
    ∧ (((∀ n ∈ raw.preorder, n.refusal? t = none)
        ∧ (∃ tree, outcome (raw.decode t) = .ok tree)
        ∧ calls (raw.decode t) = (raw.preorder.filter asks).map call)
      ∨ ∃ before n after cause, raw.preorder = before ++ n :: after
        ∧ (∀ m ∈ before, m.refusal? t = none) ∧ n.refusal? t = some cause
        ∧ outcome (raw.decode t) = .error (.node n.action cause)
        ∧ calls (raw.decode t) = ((before ++ [n]).filter asks).map call) := by
  refine ⟨decode_eq_decodeRec t raw, fun tree => decode_eq_ok_iff_alike, ?_⟩
  rw [decode_eq_decodeRec, outcome_decodeRec, calls_decodeRec]
  cases failure : firstFailure? t raw.preorder with
  | none =>
    have fine := firstFailure?_eq_none_iff.1 failure
    exact ⟨by simp, .inl ⟨fine, ⟨_, rfl⟩, callsFor_of_forall fine⟩⟩
  | some e =>
    obtain ⟨before, n, after, split, he, hbefore⟩ := List.findSome?_eq_some_iff.1 failure
    obtain ⟨cause, hn, rfl⟩ := Option.map_eq_some_iff.1 he
    have fine : ∀ m ∈ before, m.refusal? t = none := by simpa using hbefore
    refine ⟨by simp, .inr ⟨before, n, after, cause, split, fine, hn, rfl, ?_⟩⟩
    rw [split, callsFor_of_refused fine hn]

end RawTree

end Trellis
