import JumpIR.Proofs.Grammar.Reading

/-!
# Types by the grammar

The reader of types takes exactly what the grammar derives, up to an arrow that may follow. Its
levels run out only behind tokens that there are not.
-/

set_option autoImplicit false

open JumpIR.Grammar JumpIR.Tree JumpIR.Parser

namespace JumpIR

/-! ### Numbers -/

theorem foldl_decimal (digits : List Char) (n : Nat) :
    digits.foldl (fun n c => n * 10 + (c.toNat - '0'.toNat)) n =
      Nat.ofDigits 10 (digits.reverse.map fun c => c.toNat - '0'.toNat) +
        n * 10 ^ digits.length := by
  induction digits generalizing n with
  | nil => simp
  | cons c rest ih =>
      rw [List.foldl_cons, ih, List.reverse_cons, List.map_append, Nat.ofDigits_append]
      simp only [List.map_cons, List.map_nil, Nat.ofDigits_singleton, List.length_map,
        List.length_reverse, List.length_cons, pow_succ]
      ring

theorem decimalText?_eq_some {digits : List Char} {n : Nat} :
    decimalText? digits = some n ↔ Decimal digits n := by
  unfold decimalText?
  rw [foldl_decimal]
  constructor
  · intro read
    split at read
    case isTrue good =>
        obtain ⟨nonempty, isDigits⟩ := good
        refine ⟨nonempty, by simpa using isDigits, ?_⟩
        simpa using (Option.some.inj read).symm
    case isFalse => cases read
  · rintro ⟨nonempty, isDigits, value⟩
    rw [if_pos ⟨nonempty, by simpa using isDigits⟩, value]
    simp

/-! ### Names of base types -/

theorem isBase_of_ofName? {name : String} {type : BaseType}
    (named : BaseType.ofName? name = some type) : IsBase name type := by
  unfold BaseType.ofName? at named
  split_ifs at named with word word word word word word word
  case neg =>
    split at named
    case h_1 chars digits spelling =>
        split at named
        case h_1 width read =>
            split at named
            case isTrue bounds =>
                cases named
                have same : name = String.ofList ("bv".toList ++ digits) := by
                  rw [← @String.ofList_toList name, spelling]
                  rfl
                rw [same]
                exact .bits (decimalText?_eq_some.mp read) bounds.1 bounds.2
            case isFalse => cases named
        case h_2 => cases named
    case h_2 => cases named
  all_goals
    cases named
    subst word
    constructor

theorem ofName?_of_isBase {name : String} {type : BaseType} (named : IsBase name type) :
    BaseType.ofName? name = some type := by
  cases named with
  | @bits digits width decimal least most =>
      have nonempty := decimal.nonempty
      have apart : ∀ other : String, "bv".toList ++ digits ≠ other.toList →
          String.ofList ("bv".toList ++ digits) ≠ other := by
        rintro _ different rfl
        exact different String.toList_ofList.symm
      unfold BaseType.ofName?
      rw [if_neg (apart _ (by simp)), if_neg (apart _ (by simp)), if_neg (apart _ (by simp)),
        if_neg (apart _ (by simp)), if_neg (apart _ (by simp)), if_neg (apart _ (by simp)),
        if_neg (apart _ (by simpa using nonempty)), String.toList_ofList]
      have chars : "bv".toList ++ digits = 'b' :: 'v' :: digits := rfl
      simp only [chars, decimalText?_eq_some.mpr decimal]
      exact if_pos ⟨least, most⟩
  | _ => rfl

/-! ### What is read -/

theorem bare_tuple (span : Span) : ∀ types : List TypeExpr, types ≠ [] → (∀ type, types ≠ [type]) →
    grouped (types.map TypeExpr.bare) = (TypeExpr.tuple types span).bare
  | [], nonempty, _ => absurd rfl nonempty
  | [type], _, several => absurd rfl (several type)
  | first :: second :: rest, _, _ => by
      rw [TypeExpr.bare, TypeExpr.allBare_eq]
      rfl

namespace Tree.TypeExpr

theorem reads_afterPercent (start : Span) :
    (afterPercent start).Reads fun ks type => IsNamed ks type.bare := by
  intro c
  apply readsAt_here
  split
  case h_1 kind =>
      apply (readsAt_advance kind (by simp)).bind
      intro _
      apply reads_identifier.bind
      intro name
      apply (reads_spanFrom start).bind
      intro _
      apply reads_pure
      rintro _ rfl _ rfl _ rfl
      exact .enum
  case h_2 kind =>
      apply (readsAt_advance kind (by simp)).bind
      intro _
      apply reads_identifier.bind
      intro name
      apply (reads_spanFrom start).bind
      intro _
      apply reads_pure
      rintro _ rfl _ rfl _ rfl
      exact .union
  case h_3 name kind =>
      apply (readsAt_advance kind (by simp)).bind
      intro _
      split
      case h_1 type known =>
          apply (reads_spanFrom start).bind
          intro _
          apply reads_pure
          rintro _ rfl _ rfl
          exact .base (isBase_of_ofName? known)
      case h_2 => exact reads_fail _ _
  case h_4 => exact reads_fail _ _ c

theorem reads_parseWithin (levels : Nat) :
    (parseWithin levels).Reads fun ks type => IsType ks type.bare := by
  induction levels with
  | zero => exact fun c => readsAt_here (reads_fail _ _ c)
  | succ levels ih =>
      intro c
      apply readsAt_here
      apply (reads_eat (by simp) c).bind
      intro opened
      cases opened with
      | false =>
          apply (reads_expect (by simp)).bind
          intro _
          apply (reads_afterPercent _).imp
          rintro ks type named _ rfl _ rfl
          exact .named named
      | true =>
          apply (reads_commaSeparated ih).bind
          intro types
          apply (reads_expect (by simp)).bind
          intro _
          apply (reads_eat (by simp)).bind
          intro arrow
          cases arrow with
          | true =>
              apply ih.bind
              intro result
              apply (reads_spanFrom _).bind
              intro span
              apply reads_pure
              rintro _ rfl others returns _ rfl _ rfl ks params _ rfl
              rw [bare, allBare_eq]
              simpa using IsType.function params returns
          | false =>
              rw [if_neg Bool.false_ne_true]
              split
              case h_1 =>
                  apply (reads_spanFrom _).bind
                  intro span
                  apply reads_pure
                  rintro _ rfl _ rfl _ rfl ks items _ rfl
                  simpa [grouped, bare] using IsType.group items
              case h_2 type =>
                  apply reads_pure
                  rintro _ rfl _ rfl ks items _ rfl
                  simpa [grouped] using IsType.group items
              case h_3 _ nonempty several =>
                  apply (reads_spanFrom _).bind
                  intro span
                  apply reads_pure
                  rintro _ rfl _ rfl _ rfl ks items _ rfl
                  rw [← bare_tuple span types nonempty several]
                  simpa using IsType.group items

/-! ### What is derived -/

theorem starts_type {ks : List TokenKind} {type : TypeExpr} (derives : IsType ks type) :
    ∃ first others, ks = first :: others ∧ first ≠ .mark .closeParen := by
  cases derives <;> exact ⟨_, _, rfl, by simp⟩

theorem accepts_afterPercent (start : Span) {ks : List TokenKind} {type : TypeExpr}
    (named : IsNamed ks type) {c : Cursor} {rest : List TokenKind} (ready : c.Ready (ks ++ rest)) :
    (afterPercent start).Accepts (fun t => t.bare = type) c rest := by
  have kind := ready.kind_eq
  apply accepts_here
  cases named with
  | @base name type named =>
      have kind : c.kind = .ident name := kind
      rw [kind]
      apply (accepts_advance ready).bind
      intro _ d _ ready
      simp only [ofName?_of_isBase named]
      exact accepts_spanFrom fun span => accepts_pure ready rfl
  | enum =>
      have kind : c.kind = .keyword .enumDecl := kind
      rw [kind]
      apply (accepts_advance ready).bind
      intro _ d _ ready
      apply (accepts_identifier ready).bind
      rintro i d rfl ready
      exact accepts_spanFrom fun span => accepts_pure ready rfl
  | union =>
      have kind : c.kind = .keyword .unionDecl := kind
      rw [kind]
      apply (accepts_advance ready).bind
      intro _ d _ ready
      apply (accepts_identifier ready).bind
      rintro i d rfl ready
      exact accepts_spanFrom fun span => accepts_pure ready rfl

theorem accepts_parseWithin (levels : Nat) : ∀ ks type, IsType ks type → ks.length < levels →
    ∀ c rest, c.Ready (ks ++ rest) → rest.headD .endOfFile ≠ .mark .arrow →
      (parseWithin levels).Accepts (fun t => t.bare = type) c rest := by
  induction levels with
  | zero =>
      intro ks type derives short
      cases short
  | succ levels ih =>
      -- The items of a list are shorter than the list, so the levels below suffice for them.
      have serves : ∀ longest, longest < levels →
          (parseWithin levels).Serves bare IsType (.mark .closeParen) longest := by
        intro longest short used type derives bound behind either c rest ready
        apply ih used type derives (by omega) c _ ready
        rcases either with rfl | rfl <;> simp
      intro ks type derives short c rest ready follows
      apply accepts_here
      cases derives with
      | @named ks type named =>
          apply (passes_eat ready (by simp)).bind
          rintro _ d rfl ready
          apply (accepts_expect ready).bind
          intro _ d _ ready
          exact accepts_afterPercent _ named ready
      | @group ks types items =>
          simp only [List.cons_append, List.append_assoc, List.nil_append] at ready
          simp only [List.length_append, List.length_cons] at short
          apply (accepts_eat ready).bind
          rintro _ d rfl ready
          apply (accepts_commaSeparated (serves ks.length (by omega)) (by simp)
            (fun _ _ => starts_type) items ready).bind
          intro read d same ready
          apply (accepts_expect ready).bind
          intro _ d _ ready
          apply (passes_eat ready follows).bind
          rintro _ d rfl ready
          rw [if_neg Bool.false_ne_true]
          subst same
          split
          case h_1 => exact accepts_spanFrom fun span => accepts_pure ready rfl
          case h_2 => exact accepts_pure ready rfl
          case h_3 _ nonempty several =>
              apply accepts_spanFrom
              intro span
              exact accepts_pure ready (bare_tuple span _ nonempty several).symm
      | @function ks types others result params returns =>
          simp only [List.cons_append, List.append_assoc] at ready
          simp only [List.length_append, List.length_cons] at short
          apply (accepts_eat ready).bind
          rintro _ d rfl ready
          apply (accepts_commaSeparated (serves ks.length (by omega)) (by simp)
            (fun _ _ => starts_type) params ready).bind
          intro read d same ready
          apply (accepts_expect ready).bind
          intro _ d _ ready
          apply (accepts_eat ready).bind
          rintro _ d rfl ready
          apply (ih others result returns (by omega) d rest ready follows).bind
          intro result' d same' ready
          apply accepts_spanFrom
          intro span
          exact accepts_pure ready (by rw [bare, allBare_eq, same, same'])

theorem reads_parse : parse.Reads fun ks type => IsType ks type.bare :=
  fun c => readsAt_here (reads_parseWithin _ c)

theorem accepts_parse {ks : List TokenKind} {type : TypeExpr} (derives : IsType ks type)
    {c : Cursor} {rest : List TokenKind} (ready : c.Ready (ks ++ rest))
    (follows : rest.headD .endOfFile ≠ .mark .arrow) :
    parse.Accepts (fun t => t.bare = type) c rest := by
  apply accepts_here
  apply accepts_parseWithin _ ks type derives _ c rest ready follows
  rw [ready.stands.budget, List.length_append]
  omega

end Tree.TypeExpr

end JumpIR
