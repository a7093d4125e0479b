import QUniLator.Mux.DzReceiver

namespace QUniLator.Mux

/-- The multiplexers: the DHV11, and the DZ11 with its smaller board -/
inductive Multiplexer
  | dhv11
  | dz (b : DzBoard)

namespace Multiplexer

def card : Multiplexer → Card
  | .dhv11 => Mux.dhv11
  | .dz b => Mux.dzv11 b

def receiver : (m : Multiplexer) → Receiver m.card
  | .dhv11 => dhvReceiver
  | .dz b => dzReceiver b

theorem lawful (m : Multiplexer) : m.receiver.Lawful := by
  cases m with
  | dhv11 => exact dhv_lawful
  | dz b => exact dz_lawful b

end Multiplexer

/-- In any run where nothing comes into an empty FIFO between the bus cycle and the callback of a read of RBUF, the
reads return what was received, in order and once. A full FIFO gives up its newest entry for one that is marked. -/
theorem receive_inOrder (m : Multiplexer) {as : List m.card.Event} {s : m.card.Seat} {l : Ledger Word}
    (h : Run (Guarded (fun x e => m.receiver.calm x.1 e=true) m.receiver.step)
      (m.card.start,⟨[],[],0⟩) as (s,l)) : m.receiver.Delivers s l ∧
    (∀ line < m.receiver.lines,∀ ch,Carries (m.receiver.entry line ch) line ch) ∧
    ∀ w line ch,(markOverrun w).getLsbD 14 ∧ (Carries w line ch → Carries (markOverrun w) line ch) := by
  have hinv := h.invariant (P := m.receiver.Inv) (fun _ _ _ hx hs => hx.step m.lawful hs.1 hs.2)
    (Receiver.inv_start m.lawful)
  exact ⟨hinv.delivers,m.lawful.entry,fun w line ch => ⟨markOverrun_flag w,carries_markOverrun⟩⟩

/-- A character comes between the bus cycle and the callback of the read of another one. -/
theorem receive_inOrder_next : ∃ s l, l.kept=[0o101501,0o102502] ∧ l.returned=[0o101501,0o102502] ∧
    (Multiplexer.dhv11.receiver.Delivers s l) := by
  obtain ⟨⟨s,l⟩,hs,hp⟩ := run_of_foldlM (fun x e => dhvReceiver.calm x.1 e=true) dhvReceiver.step
    (fun x => x.2=⟨[0o101501,0o102502],[0o101501,0o102502],2⟩)
    [.initAssert fun _ => false,.initNegate,.write DhvReg.csr 0o40,
      .move (.receive 3 0o101),.cycle DhvReg.rbuf,.move (.receive 5 0o102),.callback,
      .cycle DhvReg.rbuf,.callback]
    (dhv11.start,⟨[],[],0⟩) (by decide)
  have hl := of_decide_eq_true hp
  cases hl
  exact ⟨s,_,rfl,rfl,(receive_inOrder .dhv11 hs).1⟩

/-- A read finds RBUF invalid, and its callback takes out the character that has come in the meantime. -/
theorem receive_loses : ∃ s l, Run (Guarded (fun _ _ => True) dhvReceiver.step) (dhv11.start,⟨[],[],0⟩)
      [.cycle DhvReg.rbuf,.move (.receive 3 0o101),.callback] (s,l) ∧
    l.kept=[0o101501] ∧ l.returned=[] ∧ (dhvReceiver.silo s).unread=[] ∧ ¬dhvReceiver.Delivers s l := by
  obtain ⟨⟨s,l⟩,hs,hp⟩ := run_of_foldlM (fun _ _ => True) dhvReceiver.step
    (fun x => x.2=⟨[0o101501],[],0⟩ ∧ (dhvReceiver.silo x.1).unread=[])
    [.cycle DhvReg.rbuf,.move (.receive 3 0o101),.callback] (dhv11.start,⟨[],[],0⟩) (by decide)
  obtain ⟨hl,hu⟩ := of_decide_eq_true hp
  cases hl
  refine ⟨s,_,hs,rfl,rfl,hu,fun hd => ?_⟩
  have ho := hd.order
  rw [hu] at ho
  cases ho

end QUniLator.Mux
