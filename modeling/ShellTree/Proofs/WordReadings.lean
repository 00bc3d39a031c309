import ShellTree.Bash.Reader
import ShellTree.Proofs.Outcome

/-!
# Words and redirections as they are read

Every word of bash becomes a list of characters, whatever its bytes are.  A
redirection becomes one construct, with a text for its kind, a descriptor that is
named by a word or fixed, and a word or another descriptor as its target.
-/

namespace ShellTree

namespace Bash

/-! ## Words -/

/-- A character of a word. -/
def cell (code : Int) : Datum :=
  .part (.char (.int code) (.bool true))

/-- The datum is a word of plain characters. -/
def IsWord (datum : Datum) : Prop :=
  ∃ codes : List Int, datum = .list (codes.map cell)

theorem isWord_nil : IsWord (.list []) :=
  ⟨[], rfl⟩

theorem IsWord.cons {chars : List Datum} (isWord : IsWord (.list chars)) (code : Int) :
    IsWord (.list (cell code :: chars)) := by
  obtain ⟨codes, same⟩ := isWord
  cases same
  exact ⟨code :: codes, rfl⟩

theorem always_charOf (datum : Datum) :
    Always (charOf datum) fun char => ∃ code, char = cell code := by
  have isCode : Always (codeOf datum) fun code => ∃ value : Int, code = .int value := by
    refine .skip fun _ => ?_
    split
    · exact .fault _
    · split
      · exact .skip fun code => .pure ⟨code, rfl⟩
      · exact .fault _
  refine .bind isCode ?_
  rintro _ ⟨code, rfl⟩
  exact .pure ⟨code, rfl⟩

theorem always_expand (cells : List Datum) :
    Always (expand cells) fun chars => IsWord (.list chars) := by
  -- One cell or two are taken at a time, as the expansion does.
  induction cells using expand.induct with
  | case1 => exact .pure isWord_nil
  | case2 first escapes =>
      rw [expand, if_pos escapes]
      exact .fault _
  | case3 first escapes second others ih =>
      rw [expand, if_pos escapes]
      refine .bind (always_charOf second) ?_
      rintro _ ⟨code, rfl⟩
      exact .bind ih fun chars isWord => .pure (isWord.cons code)
  | case4 first plain slash =>
      rw [expand, if_neg plain, if_pos slash]
      exact .fault _
  | case5 first plain second others slash ih =>
      rw [expand, if_neg plain, if_pos slash]
      refine .bind (always_charOf first) ?_
      rintro _ ⟨code, rfl⟩
      refine .bind (always_charOf second) ?_
      rintro _ ⟨escaped, rfl⟩
      exact .bind ih fun chars isWord => .pure ((isWord.cons escaped).cons code)
  | case6 first others plain noSlash ih =>
      unfold expand
      rw [if_neg plain, if_neg noSlash]
      refine .bind (always_charOf first) ?_
      rintro _ ⟨code, rfl⟩
      exact .bind ih fun chars isWord => .pure (isWord.cons code)

theorem always_wordOfBytes (bytes : List UInt8) : Always (wordOfBytes bytes) IsWord :=
  .bind (always_expand _) fun _ isWord => .pure isWord

theorem always_readWord (word : Record) : Always (readWord word) IsWord :=
  .skip fun _ => .skip fun _ => .skip fun _ => always_wordOfBytes _

/-- The datum is a list of words. -/
def AreWords (datum : Datum) : Prop :=
  ∃ words, datum = .list words ∧ ∀ word ∈ words, IsWord word

theorem always_readWords (words : Record) : Always (readWords words) AreWords :=
  .skip fun _ => .bind (.mapM fun word _ => always_readWord word.1) fun words each =>
    .pure ⟨words, rfl, each⟩

/-- The datum is an assignment of a word. -/
def IsAssign (datum : Datum) : Prop :=
  ∃ name word, IsWord word ∧ datum = .assign (.text name) word

theorem always_readAssign (word : Record) : Always (readAssign word) IsAssign := by
  refine .skip fun content => ?_
  split
  · split
    · exact .fault _
    · split
      · exact .fault _
      · next name _ =>
          exact .skip fun _ => .bind (always_wordOfBytes _) fun value isWord =>
            .pure ⟨name, value, isWord, rfl⟩
  · exact .fault _
  · exact .fault _

theorem always_readSimpleWords (isFirst : Bool) (words : List Record) :
    Always (readSimpleWords isFirst words) fun read =>
      (∀ assignment ∈ read.1, IsAssign assignment) ∧ ∀ argument ∈ read.2, IsWord argument := by
  induction words generalizing isFirst with
  | nil => exact .pure (by simp)
  | cons word rest ih =>
      refine .skip fun flags => .skip fun assigns => .ite (fun _ => ?_) fun _ => ?_
      · refine .bind (always_readAssign word) fun assignment isAssign => .bind (ih false) ?_
        rintro ⟨assignments, arguments⟩ ⟨assigned, worded⟩
        exact .pure ⟨List.forall_mem_cons.mpr ⟨isAssign, assigned⟩, worded⟩
      · refine .bind (always_readWord word) fun argument isWord => .bind (ih false) ?_
        rintro ⟨assignments, arguments⟩ ⟨assigned, worded⟩
        exact .pure ⟨assigned, List.forall_mem_cons.mpr ⟨isWord, worded⟩⟩

/-! ## Redirections -/

/-- The datum is a word, or nothing. -/
def IsName (datum : Datum) : Prop :=
  datum = .null ∨ IsWord datum

/-- The datum is a descriptor, named by a word or fixed. -/
inductive IsDescriptor : Datum → Prop where
  | named {name : Datum} (isName : IsName name) : IsDescriptor (.tuple [.text "var", name])
  | fixed (dest : Record) : IsDescriptor (.tuple [.text "fixed", dest.datum])

/-- The datum is a redirection. -/
inductive IsRedir : Datum → Prop where
  | file {kind : String} {fd name : Datum} (isFd : IsDescriptor fd) (isName : IsName name) :
      IsRedir (.redir (.file (.text kind) fd name))
  | dup {kind : String} {fd target : Datum} {move : Bool} (isFd : IsDescriptor fd)
      (isTarget : IsDescriptor target) :
      IsRedir (.redir (.dup (.text kind) fd target (.bool move)))
  | heredoc {kind : String} {fd name : Datum} {tabs : Bool} (eof : Record)
      (isFd : IsDescriptor fd) (isName : IsName name) :
      IsRedir (.redir (.heredoc (.text kind) fd name (.bool tabs) eof.datum))
  | single {kind : String} {fd : Datum} (isFd : IsDescriptor fd) :
      IsRedir (.redir (.single (.text kind) fd))

theorem always_readFd (redirector rflags : Record) :
    Always (readFd redirector rflags) IsDescriptor := by
  refine .skip fun flag => .ite (fun _ => ?_) fun _ => ?_
  · exact .skip fun filename => .bind (always_readWord _) fun word isWord =>
      .pure (.named (.inr isWord))
  · exact .skip fun dest => .pure (.fixed dest.1)

theorem always_heredocKind (filename : Record) :
    Always (heredocKind filename) fun kind => ∃ text, kind = .text text :=
  .skip fun _ => .skip fun _ => .pure ⟨_, rfl⟩

theorem always_readRedir (redir : Record) : Always (readRedir redir) IsRedir := by
  refine .skip fun redirector => .skip fun rflags => .skip fun instruction =>
    .skip fun redirectee => .skip fun eof => .bind (always_readFd _ _) fun fd isFd =>
    .skip fun filename => ?_
  have named : Always (readWord filename.1) IsName := (always_readWord _).mono fun _ => .inr
  refine .either named (.pure (.inl rfl)) fun name isName => ?_
  dsimp only
  rw [← bind_assoc]
  have fixed : Always (do
      let dest ← redirectee.1.field "dest"
      pure (.tuple [.text "fixed", dest.1.datum])) IsDescriptor :=
    .skip fun dest => .pure (.fixed dest.1)
  refine .either (.pure (.named isName)) fixed fun target isTarget => ?_
  cases instruction.1.integer?.bind Instruction.ofNumber? with
  | none => exact .fault _
  | some kind =>
      cases kind with
      | output => exact .pure (.file isFd isName)
      | input => exact .pure (.file isFd isName)
      | asynchronousInput => exact .fault _
      | append => exact .bind named fun _ isName => .pure (.file isFd isName)
      | heredoc =>
          refine .bind (always_heredocKind _) ?_
          rintro _ ⟨kind, rfl⟩
          exact .pure (.heredoc eof.1 isFd isName)
      | hereString => exact .pure (.file isFd isName)
      | dupInput => exact .pure (.dup isFd isTarget)
      | dupOutput => exact .pure (.dup isFd isTarget)
      | heredocTabs =>
          refine .bind (always_heredocKind _) ?_
          rintro _ ⟨kind, rfl⟩
          exact .bind named fun _ isName => .pure (.heredoc .null isFd isName)
      | close => exact .pure (.single isFd)
      | outputAndErrors => exact .bind named fun _ isName => .pure (.single (.named isName))
      | inputOutput => exact .pure (.file isFd isName)
      | forceOutput => exact .pure (.file isFd isName)
      | dupInputWord => exact .pure (.dup isFd isTarget)
      | dupOutputWord => exact .pure (.dup isFd isTarget)
      | moveInput => exact .pure (.dup isFd isTarget)
      | moveOutput => exact .pure (.dup isFd isTarget)
      | moveInputWord => exact .pure (.dup isFd isTarget)
      | moveOutputWord => exact .pure (.dup isFd isTarget)
      | appendAndErrors => exact .bind named fun _ isName => .pure (.single (.named isName))

/-- The datum is a list of redirections. -/
def AreRedirs (datum : Datum) : Prop :=
  ∃ redirs, datum = .list redirs ∧ ∀ redir ∈ redirs, IsRedir redir

theorem always_readRedirs (redirects : Record) : Always (readRedirs redirects) AreRedirs :=
  .skip fun _ => .bind (.mapM fun redir _ => always_readRedir redir.1) fun redirs each =>
    .pure ⟨redirs, rfl, each⟩

end Bash

end ShellTree
