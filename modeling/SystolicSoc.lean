import SystolicSoc.Accel.Drain
import SystolicSoc.Accel.Exact
import SystolicSoc.Accel.Payload
import SystolicSoc.Accel.Polling
import SystolicSoc.Accel.Progress
import SystolicSoc.Accel.Reads
import SystolicSoc.Accel.Storage
import SystolicSoc.Array.Reference
import SystolicSoc.Cpu.Div
import SystolicSoc.Cpu.Mul
import SystolicSoc.Driver.Correct
import SystolicSoc.Ram.Memory
import SystolicSoc.Soc.Termination
import SystolicSoc.Xbar.Routing
