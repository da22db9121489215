import JumpIR.Proofs.Lowering.Acceptance

/-!
# Order of declarations

Neither linking nor lowering accepts a module in one order of its declarations and refuses it in
another one. Main statement: `accepts_iff_of_perm`.
-/

set_option autoImplicit false

namespace JumpIR

namespace Tree

variable {m n : Module}

theorem WellNamed.of_perm (wellNamed : WellNamed m) (perm : m.decls.Perm n.decls) :
    WellNamed n where
  distinct := (perm.flatMap_right Decl.names).nodup_iff.mp wellNamed.distinct
  defined := by
    intro ref member
    have inRefs := (perm.flatMap_right Decl.refs).mem_iff.mpr member
    have defines := wellNamed.defined ref inRefs
    cases sort : ref.sort with
    | enum =>
        rw [sort] at defines
        obtain ⟨e, declared, named⟩ := defines
        exact ⟨e, perm.mem_iff.mp declared, named⟩
    | union =>
        rw [sort] at defines
        obtain ⟨u, declared, named⟩ := defines
        exact ⟨u, perm.mem_iff.mp declared, named⟩
  oneBody := ((perm.filterMap Decl.function?).map _).nodup_iff.mp wellNamed.oneBody
  signed := by
    intro f member
    obtain ⟨v, declared, signs⟩ :=
      wellNamed.signed f ((perm.filterMap Decl.function?).mem_iff.mpr member)
    exact ⟨v, perm.mem_iff.mp declared, signs⟩

theorem clean_of_perm (clean : m.link.2 = []) (perm : m.decls.Perm n.decls) : n.link.2 = [] :=
  (wellNamed_iff_clean n).mp (((wellNamed_iff_clean m).mpr clean).of_perm perm)

end Tree

/-- A module is linked without a fault in every order of its declarations or in none, and the same
is true of its lowering. -/
theorem accepts_iff_of_perm {m n : Tree.Module} (perm : m.decls.Perm n.decls) :
    (m.link.2 = [] ↔ n.link.2 = []) ∧
      (m.link.2 = [] → ∀ options,
        ((∃ program, Lowering.generate m.link.1.tree m.link.1.symbols options = .ok program) ↔
          ∃ program, Lowering.generate n.link.1.tree n.link.1.symbols options = .ok program)) := by
  refine ⟨⟨fun clean => Tree.clean_of_perm clean perm,
    fun clean => Tree.clean_of_perm clean perm.symm⟩, ?_⟩
  intro clean options
  have first := Lowering.succeeds_generate_iff clean options
  have second := Lowering.succeeds_generate_iff (Tree.clean_of_perm clean perm) options
  refine first.trans (Iff.trans ?_ second.symm)
  constructor
  · exact fun admissible => admissible.congr fun _ => perm.mem_iff
  · exact fun admissible => admissible.congr fun _ => perm.symm.mem_iff

/-- A text that compiles, with its declarations from the last one to the first. -/
theorem accepts_iff_of_perm_shapeText : ∃ m n : Tree.Module,
    Tree.Module.ofTokens (tokensOf shapeText.chars).1 = (m, []) ∧
      n.decls = m.decls.reverse ∧ n.link.2 = [] ∧
      ∃ program, Lowering.generate n.link.1.tree n.link.1.symbols .default = .ok program := by
  obtain ⟨program, compiled⟩ := exists_compile_shapeText
  obtain ⟨linked, read, generated⟩ := bind_ok compiled
  obtain ⟨m, links⟩ := Lowering.links_of_linked read
  have clean : m.link.2 = [] := congrArg Prod.snd links.linked
  have lowered : ∃ program,
      Lowering.generate m.link.1.tree m.link.1.symbols .default = .ok program := by
    rw [links.linked]
    dsimp only at generated ⊢
    split at generated
    · rename_i made done
      exact ⟨made, done⟩
    · cases generated
  have perm : m.decls.Perm (Tree.Module.mk m.decls.reverse m.span).decls :=
    m.decls.reverse_perm.symm
  obtain ⟨accepts, compiles⟩ := accepts_iff_of_perm perm
  exact ⟨m, _, links.parsed, rfl, accepts.mp clean, (compiles clean .default).mp lowered⟩

end JumpIR
