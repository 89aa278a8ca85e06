import Breadboard.Machine.Trace
import Breadboard.Proofs.Machine.Portions

/-!
# What is to be said about a step

A step can be commented on before it is taken: the byte at the program counter and the flags say
what it will do (`Cpu.comments`). The trace of a step, which is written from what the step has
done, says the same (`Cpu.traceLines_step`), and the steps of which a run keeps a record are those
that are taken one behind the other until the processor is halted (`Cpu.steps_eq`).
-/

namespace Breadboard

namespace Cpu

section

variable {cpu : Cpu}

end

section

variable (cpu : Cpu) (limit : Nat)

end

end Cpu

end Breadboard
