import CommonLib.Library.Machine
import CommonLib.Library.ByteOrder
import CommonLib.Library.Exhaust
import CommonLib.Model.Frame
import CommonLib.Model.AsyncTcp
import CommonLib.Verification.AsyncTcp.Receive
import CommonLib.Verification.AsyncTcp.RoundTrip
import CommonLib.Verification.AsyncTcp.Overlap
import CommonLib.Model.AsyncEventBroker
import CommonLib.Verification.AsyncEventBroker.Equations
import CommonLib.Verification.AsyncEventBroker.Malformed
import CommonLib.Verification.AsyncEventBroker.Registry
import CommonLib.Verification.AsyncEventBroker.Delivery
import CommonLib.Model.AsyncEventTransport
import CommonLib.Verification.AsyncEventTransport.Subscribe
import CommonLib.Verification.AsyncEventTransport.Delivery
import CommonLib.Verification.AsyncEventTransport.Drain
import CommonLib.Verification.AsyncEventBroker.Routing
import CommonLib.Library.Places
import CommonLib.Model.TaskExecutor
import CommonLib.Verification.TaskExecutor.Equations
import CommonLib.Verification.TaskExecutor.Conservation
import CommonLib.Verification.TaskExecutor.Wakeup
import CommonLib.Model.Timer
import CommonLib.Verification.Timer.Equations
import CommonLib.Verification.Timer.Ownership
import CommonLib.Verification.TaskExecutor.Idle
import CommonLib.Library.UpTo
import CommonLib.Model.Uart
import CommonLib.Verification.Uart.Readline
import CommonLib.Model.Runnable
import CommonLib.Verification.Runnable.Equations
import CommonLib.Verification.Runnable.Stop
import CommonLib.Verification.Runnable.Order
import CommonLib.Model.Thread
import CommonLib.Verification.Thread.Equations
import CommonLib.Verification.Thread.Phases
import CommonLib.Verification.Thread.Handle
import CommonLib.Verification.Thread.Promise
import CommonLib.Model.TcpTransport
import CommonLib.Verification.TcpTransport.Equations
import CommonLib.Verification.TcpTransport.Attached
import CommonLib.Verification.TcpTransport.LastCall
import CommonLib.Verification.TcpTransport.LostLink
import CommonLib.Verification.Frame.RoundTrip
import CommonLib.Verification.Uart.FirstLine
import CommonLib.Verification.TaskExecutor.Shutdown
import CommonLib.Verification.Timer.Registered
import CommonLib.Model.IOContext
import CommonLib.Verification.IOContext.Equations
import CommonLib.Verification.IOContext.FirstCycle
import CommonLib.Verification.IOContext.Cycle
import CommonLib.Library.Slice
import CommonLib.Library.BitSmear
import CommonLib.Model.LockFreeWorkQueue
import CommonLib.Verification.LockFreeWorkQueue.Ring
import CommonLib.Verification.LockFreeWorkQueue.Deque
import CommonLib.Model.WorkStealing
import CommonLib.Verification.WorkStealing.Equations
import CommonLib.Verification.WorkStealing.Invariant
import CommonLib.Verification.WorkStealing.ExactlyOnce
import CommonLib.Verification.WorkStealing.Alone
import CommonLib.Model.RunStop
import CommonLib.Verification.RunStop.Equations
import CommonLib.Verification.RunStop.StopSticks
import CommonLib.Verification.RunStop.EnteredOnce
import CommonLib.Verification.RunStop.Exception
import CommonLib.Verification.Runnable.EmptyList
import CommonLib.Verification.Runnable.Answered
import CommonLib.Verification.Runnable.AnswersAll
import CommonLib.Verification.Timer.ForceStop
import CommonLib.Model.TimerLoop
import CommonLib.Verification.TimerLoop.Equations
import CommonLib.Verification.TimerLoop.Status
import CommonLib.Verification.TimerLoop.Calls
import CommonLib.Library.Program
import CommonLib.Library.Indices
import CommonLib.Model.Matrix
import CommonLib.Verification.Matrix.Equations
import CommonLib.Verification.Matrix.Operators
import CommonLib.Verification.Matrix.Textbook
import CommonLib.Verification.Matrix.Packing
import CommonLib.Verification.Matrix.Determinant
import CommonLib.Verification.Matrix.Adjugate
import CommonLib.Verification.Matrix.Inverse
import CommonLib.Library.Member
import CommonLib.Model.KalmanFilter
import CommonLib.Verification.Matrix.Shapes
import CommonLib.Verification.KalmanFilter.Unchanged
import CommonLib.Library.Loop
import CommonLib.Model.UartWindows
import CommonLib.Verification.Uart.WindowsRead
import CommonLib.Verification.Uart.Agree
import CommonLib.Verification.Uart.Quiet
import CommonLib.Model.UartHandle
import CommonLib.Verification.Uart.Handles
import CommonLib.Model.Socket
import CommonLib.Verification.Socket.Honest
import CommonLib.Verification.AsyncTcp.ConnectionLost
import CommonLib.Model.AsyncUdp
import CommonLib.Model.AsyncUdpBuffer
import CommonLib.Verification.AsyncUdp.Close
import CommonLib.Verification.AsyncUdp.Buffer
import CommonLib.Verification.AsyncUdp.Network
import CommonLib.Verification.AsyncUdp.Loop
import CommonLib.Model.LazySingleton
import CommonLib.Verification.Singleton.Lazy
import CommonLib.Model.SingletonRegistry
import CommonLib.Verification.Singleton.Registry
import CommonLib.Verification.Matrix.Symmetric
import CommonLib.Verification.KalmanFilter.Symmetric
import CommonLib.Model.Misc
import CommonLib.Verification.Misc.NextPower
import CommonLib.Model.StringToHex
import CommonLib.Verification.StringToHex.RoundTrip
import CommonLib.Verification.TaskExecutor.RoundRobin
import CommonLib.Model.ScalarKalmanFilter
import CommonLib.Verification.KalmanFilter.Scalar
import CommonLib.Model.Angle
import CommonLib.Verification.Angle.RoundTrip
import CommonLib.Verification.Socket.Timed
import CommonLib.Model.SocketDescriptors
import CommonLib.Verification.Socket.Descriptors
import CommonLib.Model.Observer
import CommonLib.Verification.Observer.Reentrant
import CommonLib.Model.AsyncEventWire
import CommonLib.Model.AsyncListener
import CommonLib.Verification.AsyncListener.Accepting
import CommonLib.Verification.AsyncEventWire.Link
import CommonLib.Verification.AsyncEventWire.Refinement
import CommonLib.Verification.AsyncEventWire.Delivery
import CommonLib.Library.LinearEstimate
import CommonLib.Verification.KalmanFilter.Covariance
import CommonLib.Verification.KalmanFilter.Gain
import CommonLib.Model.LowPassFilter
import CommonLib.Verification.LowPassFilter.Mean
import CommonLib.Library.Deque
import CommonLib.Verification.WorkStealing.Linearizable
import CommonLib.Verification.AsyncListener.Ending
import CommonLib.Model.Application
import CommonLib.Verification.Application.Equations
import CommonLib.Verification.Application.Life
import CommonLib.Verification.Application.Signals
import CommonLib.Verification.Application.Audit
import CommonLib.Verification.Thread.Lambda
import CommonLib.Verification.TaskExecutor.Settling
import CommonLib.Verification.TaskExecutor.Order
import CommonLib.Library.Rotation
import CommonLib.Verification.Angle.Rotation
import CommonLib.Verification.Angle.Accelerometer
import CommonLib.Verification.Angle.Columns
